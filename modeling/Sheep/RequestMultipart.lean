/-
This file describes how the parser recognises the delimiters of a multipart
body: backwards from each carriage return, by the boundary text alone, or by the
boundary text and two dashes. The line end and the two dashes that precede a
real delimiter are not looked at.
-/

import Sheep.RequestGrammar

namespace Sheep

open ScanLoop

namespace RequestParser

/-! ### Suffixes -/

/-- A text without a line feed ends a buffer only after its last line feed. -/
theorem suffix_after_LF {boundary pre text : List Byte} (noLF : LF ∉ boundary) :
    boundary <:+ pre ++ LF :: text ↔ boundary <:+ text := by
  constructor
  · intro ends
    have tail : text <:+ pre ++ LF :: text := ⟨pre ++ [LF], by simp⟩
    rcases le_or_gt boundary.length text.length with short | long
    · exact List.suffix_of_suffix_length_le ends tail short
    · have feed : LF :: text <:+ boundary :=
        List.suffix_of_suffix_length_le ⟨pre, rfl⟩ ends (by simpa using Nat.succ_le_of_lt long)
      exact absurd (feed.subset List.mem_cons_self) noLF
  · exact fun ends => ends.trans ⟨pre ++ [LF], by simp⟩

theorem suffix_append_dashes {boundary text : List Byte} :
    boundary ++ ascii "--" <:+ text ++ ascii "--" ↔ boundary <:+ text := by
  constructor
  · rintro ⟨front, same⟩
    rw [← List.append_assoc] at same
    exact ⟨front, List.append_cancel_right same⟩
  · rintro ⟨front, same⟩
    exact ⟨front, by rw [← List.append_assoc, same]⟩

/-- Two more dashes leave a text a suffix only if it consists of dashes. -/
theorem suffix_dashes_iff {boundary : List Byte} :
    boundary <:+ boundary ++ ascii "--" ↔ ∀ byte ∈ boundary, byte = chr '-' := by
  constructor
  · intro ends
    induction length : boundary.length using Nat.strong_induction_on generalizing boundary with
    | _ size inductionHypothesis =>
      have dashes : ascii "--" <:+ boundary ++ ascii "--" := ⟨boundary, rfl⟩
      have two : (ascii "--").length = 2 := rfl
      have isDash : Token (· = chr '-') (· = chr '-') (ascii "--") := by decide
      rcases le_or_gt 2 size with long | short
      · obtain ⟨front, rfl⟩ := List.suffix_of_suffix_length_le dashes ends (by omega)
        rw [List.length_append] at length
        have shorter := inductionHypothesis front.length (by omega) (suffix_append_dashes.mp ends)
          rfl
        intro byte member
        rcases List.mem_append.mp member with old | new
        · exact shorter byte old
        · exact isDash.forall_mem byte new
      · intro byte member
        have inside := List.suffix_of_suffix_length_le ends dashes (by omega)
        exact isDash.forall_mem byte (inside.subset member)
  · intro allDashes
    rw [List.eq_replicate_of_mem allDashes]
    have two : ascii "--" = List.replicate 2 (chr '-') := rfl
    rw [two, ← List.replicate_add, Nat.add_comm, List.replicate_add]
    exact List.suffix_append _ _

/-! ### Recognising a delimiter -/

/-- The bytes before a carriage return are taken for a delimiter. -/
def Hit (boundary text : List Byte) : Prop :=
  boundary <:+ text ∨ boundary ++ ascii "--" <:+ text

theorem not_hit_nil {boundary : List Byte} (nonempty : boundary ≠ []) : ¬ Hit boundary [] := by
  rintro (ends | ends)
  · exact nonempty (List.eq_nil_of_suffix_nil ends)
  · exact nonempty (List.append_eq_nil_iff.mp (List.eq_nil_of_suffix_nil ends)).1

/-- No carriage return inside this stretch is taken for the end of a delimiter. -/
def Quiet (boundary text : List Byte) : Prop :=
  ¬ boundary ++ [CR] <:+: text ∧ ¬ boundary ++ ascii "--" ++ [CR] <:+: text

instance (boundary text : List Byte) : Decidable (Hit boundary text) := by
  unfold Hit; infer_instance

instance (boundary text : List Byte) : Decidable (Quiet boundary text) := by
  unfold Quiet; infer_instance

theorem infix_CR_iff {ending text : List Byte} :
    ending ++ [CR] <:+: text ↔ ∃ left right, text = left ++ CR :: right ∧ ending <:+ left := by
  constructor
  · rintro ⟨front, back, same⟩
    exact ⟨front ++ ending, back, by simp [← same], front, rfl⟩
  · rintro ⟨left, right, rfl, front, rfl⟩
    exact ⟨front, right, by simp⟩

theorem quiet_iff {boundary text : List Byte} :
    Quiet boundary text ↔ ∀ left right, text = left ++ CR :: right → ¬ Hit boundary left := by
  unfold Quiet Hit
  rw [infix_CR_iff, infix_CR_iff]
  constructor
  · rintro ⟨plain, dashed⟩ left right same (ends | ends)
    · exact plain ⟨left, right, same, ends⟩
    · exact dashed ⟨left, right, same, ends⟩
  · intro quiet
    exact ⟨fun ⟨left, right, same, ends⟩ => quiet left right same (Or.inl ends),
      fun ⟨left, right, same, ends⟩ => quiet left right same (Or.inr ends)⟩

theorem quiet_nil (boundary : List Byte) : Quiet boundary [] :=
  quiet_iff.mpr fun left right same => by simp at same

/-- A quiet stretch stays quiet with one more byte unless that byte is a hit. -/
theorem Quiet.snoc {boundary text : List Byte} {byte : Byte} (quiet : Quiet boundary text)
    (miss : byte = CR → ¬ Hit boundary text) : Quiet boundary (text ++ [byte]) := by
  refine quiet_iff.mpr fun left right same hit => ?_
  rcases List.eq_nil_or_concat right with rfl | ⟨right, last, rfl⟩
  · obtain ⟨sameText, sameByte⟩ := List.append_inj' same rfl
    exact miss (List.singleton_inj.mp sameByte) (sameText ▸ hit)
  · rw [List.concat_eq_append, ← List.cons_append, ← List.append_assoc] at same
    exact quiet_iff.mp quiet left right (List.append_inj' same rfl).1 hit

/-- A stretch is quiet, or it has a first carriage return that is a hit. -/
theorem quiet_or_first_hit (boundary text : List Byte) :
    Quiet boundary text ∨ ∃ left right, text = left ++ CR :: right ∧ Hit boundary left ∧
      Quiet boundary left := by
  induction text using List.reverseRecOn with
  | nil => exact Or.inl (quiet_nil boundary)
  | append_singleton text byte inductionHypothesis =>
    rcases inductionHypothesis with quiet | ⟨left, right, same, hit, quiet⟩
    · by_cases here : byte = CR ∧ Hit boundary text
      · exact Or.inr ⟨text, [], by rw [here.1], here.2, quiet⟩
      · exact Or.inl (quiet.snoc fun carriage hit => here ⟨carriage, hit⟩)
    · exact Or.inr ⟨left, right ++ [byte], by rw [same]; simp, hit, quiet⟩

section Backwards

variable {boundary pre text : List Byte} {l : Locals}

/-- Comparing the bytes before a point with the boundary. -/
theorem range_same_boundary (left right : List Byte) {buffer : List Byte} {view : StringView}
    (denotes : view.text buffer = some boundary) (split : buffer = left ++ right)
    (within : boundary.length ≤ left.length) :
    (StringView.range (left.length - view.size) left.length).same buffer view = true ↔
      boundary <:+ left := by
  have size := StringView.size_of_text denotes
  have cut : left.take (left.length - boundary.length) ++
      left.drop (left.length - boundary.length) = left := List.take_append_drop _ _
  have candidate : (StringView.range (left.length - view.size) left.length).text buffer =
      some (left.drop (left.length - boundary.length)) := by
    refine StringView.text_range (left.take (left.length - boundary.length)) _ right ?_ ?_ ?_
    · rw [cut, split]
    · rw [size, List.length_take]
      omega
    · rw [cut]
  rw [StringView.same_iff_of_text candidate denotes, List.suffix_iff_eq_drop, eq_comm]

/-- The first comparison: the bytes before the carriage return end with the boundary. -/
theorem candidate_same (denotes : l.req.partBoundary.text (pre ++ LF :: text) = some boundary)
    (within : boundary.length ≤ pre.length) (noLF : LF ∉ boundary) :
    (StringView.range ((pre ++ LF :: text).length - l.req.partBoundary.size)
      (pre ++ LF :: text).length).same (pre ++ LF :: text) l.req.partBoundary = true ↔
      boundary <:+ text := by
  rw [range_same_boundary _ [] denotes (List.append_nil _).symm (by simp; omega),
    suffix_after_LF noLF]

theorem setLastData_append (req : Request) (parts : List Request.Part) (part : Request.Part)
    (stored : req.parts = parts ++ [part]) (data : StringView) :
    req.setLastData data = some { req with parts := parts ++ [{ part with data }] } := by
  simp [Request.setLastData, stored]

variable {parts : List Request.Part} {part : Request.Part}

/-- A boundary alone: the part's data ends four bytes before it. -/
theorem matchBoundaryBackwards_boundary
    (denotes : l.req.partBoundary.text (pre ++ LF :: text) = some boundary)
    (within : boundary.length ≤ pre.length) (noLF : LF ∉ boundary)
    (stored : l.req.parts = parts ++ [part]) (ends : boundary <:+ text) :
    matchBoundaryBackwards (pre ++ LF :: text) (pre ++ LF :: text).length l =
      .go { l with
        state := .boundaryMatchR
        req := { l.req with parts := parts ++ [{ part with
          data := .range l.prevIt ((pre ++ LF :: text).length - boundary.length - 4) }] } }
        [.range ((pre ++ LF :: text).length - boundary.length) (pre ++ LF :: text).length,
          l.req.partBoundary,
          .range l.prevIt ((pre ++ LF :: text).length - boundary.length - 4)] := by
  have same := (candidate_same denotes within noLF).mpr ends
  rw [StringView.size_of_text denotes] at same
  rw [matchBoundaryBackwards]
  simp only [StringView.size_of_text denotes, same, if_true, setLastData_append _ _ _ stored]

theorem getLast_dashes (front text : List Byte) :
    (front ++ text ++ ascii "--").getLast? = some (chr '-') ∧
      (front ++ text ++ ascii "--").dropLast.getLast? = some (chr '-') := by
  have shape : front ++ text ++ ascii "--" = (front ++ text ++ [chr '-']) ++ [chr '-'] := by
    simp [ascii]
  rw [shape, List.dropLast_concat]
  exact ⟨List.getLast?_concat, List.getLast?_concat⟩

theorem dashes_of_getLast {before : List Byte} (last : before.getLast? = some (chr '-'))
    (previous : before.dropLast.getLast? = some (chr '-')) :
    ∃ front, before = front ++ ascii "--" := by
  obtain ⟨front, rfl⟩ := List.getLast?_eq_some_iff.mp last
  rw [List.dropLast_concat] at previous
  obtain ⟨front', rfl⟩ := List.getLast?_eq_some_iff.mp previous
  exact ⟨front', by simp [ascii]⟩

/-- A boundary and two dashes: the part's data ends six bytes before them. -/
theorem matchBoundaryBackwards_last
    (denotes : l.req.partBoundary.text (pre ++ LF :: text) = some boundary)
    (within : boundary.length ≤ pre.length) (noLF : LF ∉ boundary)
    (stored : l.req.parts = parts ++ [part]) (plain : ¬ boundary <:+ text)
    (ends : boundary ++ ascii "--" <:+ text) :
    matchBoundaryBackwards (pre ++ LF :: text) (pre ++ LF :: text).length l =
      .go { l with
        state := .lastBoundaryMatch
        req := { l.req with parts := parts ++ [{ part with
          data := .range l.prevIt ((pre ++ LF :: text).length - boundary.length - 6) }] } }
        [.range ((pre ++ LF :: text).length - boundary.length) (pre ++ LF :: text).length,
          .range ((pre ++ LF :: text).length - boundary.length - 2)
            ((pre ++ LF :: text).length - 2),
          l.req.partBoundary,
          .range l.prevIt ((pre ++ LF :: text).length - boundary.length - 6)] := by
  obtain ⟨front, rfl⟩ : ∃ front, text = front ++ ascii "--" := by
    obtain ⟨front, rfl⟩ := ends
    exact ⟨front ++ boundary, by simp⟩
  have notSame := mt (candidate_same denotes within noLF).mp plain
  have same := (range_same_boundary (pre ++ LF :: front) (ascii "--") denotes (by simp)
    (by simp; omega)).mpr ((suffix_after_LF noLF).mpr (suffix_append_dashes.mp ends))
  have length : ((pre ++ LF :: front).length : Int) =
      (pre ++ LF :: (front ++ ascii "--")).length - 2 := by
    simp [ascii]
    omega
  rw [length] at same
  rw [StringView.size_of_text denotes] at notSame same
  have shift : ((pre ++ LF :: (front ++ ascii "--")).length : Int) - 2 - boundary.length =
      (pre ++ LF :: (front ++ ascii "--")).length - boundary.length - 2 := by omega
  rw [shift] at same
  have dashes := getLast_dashes (pre ++ [LF]) front
  rw [show pre ++ [LF] ++ front ++ ascii "--" = pre ++ LF :: (front ++ ascii "--") by simp]
    at dashes
  rw [matchBoundaryBackwards]
  simp only [StringView.size_of_text denotes, notSame, Bool.false_eq_true, if_false, same, if_true,
    setLastData_append _ _ _ stored]
  rw [if_pos dashes]

/-- Neither: the loop goes on, and what it compared lies in the buffer. -/
theorem matchBoundaryBackwards_miss
    (denotes : l.req.partBoundary.text (pre ++ LF :: text) = some boundary)
    (within : boundary.length ≤ pre.length) (noLF : LF ∉ boundary) (miss : ¬ Hit boundary text) :
    ∃ notes, matchBoundaryBackwards (pre ++ LF :: text) (pre ++ LF :: text).length l =
        .go l notes ∧
      ∀ note ∈ notes, note.InBuffer (pre ++ LF :: text).length := by
  have inside := StringView.inBuffer_of_text denotes
  have notSame := mt (candidate_same denotes within noLF).mp fun ends => miss (Or.inl ends)
  rw [StringView.size_of_text denotes] at notSame
  have length : (pre ++ LF :: text).length = pre.length + text.length + 1 := by
    rw [List.length_append, List.length_cons]
    omega
  rw [matchBoundaryBackwards]
  simp only [StringView.size_of_text denotes, notSame, Bool.false_eq_true, if_false]
  by_cases dashes : (pre ++ LF :: text).getLast? = some (chr '-') ∧
      (pre ++ LF :: text).dropLast.getLast? = some (chr '-')
  · obtain ⟨front, shape⟩ := dashes_of_getLast dashes.1 dashes.2
    -- the line feed is no dash, so both dashes lie after it
    obtain ⟨rest, rfl⟩ := (suffix_after_LF (by decide : LF ∉ ascii "--")).mp ⟨front, shape.symm⟩
    have notEnds : ¬ boundary <:+ pre ++ LF :: rest := fun ends =>
      miss (Or.inr (suffix_append_dashes.mpr ((suffix_after_LF noLF).mp ends)))
    have notShifted := mt (range_same_boundary (pre ++ LF :: rest) (ascii "--") denotes (by simp)
      (by simp; omega)).mp notEnds
    have shorter : ((pre ++ LF :: rest).length : Int) =
        (pre ++ LF :: (rest ++ ascii "--")).length - 2 := by
      simp [ascii]
      omega
    have shift : ((pre ++ LF :: (rest ++ ascii "--")).length : Int) - 2 - boundary.length =
        (pre ++ LF :: (rest ++ ascii "--")).length - boundary.length - 2 := by omega
    rw [shorter, StringView.size_of_text denotes, shift] at notShifted
    have two : 2 ≤ (rest ++ ascii "--").length := by simp [ascii]
    rw [if_pos dashes, if_neg notShifted]
    refine ⟨_, rfl, fun note member => ?_⟩
    rcases List.mem_cons.mp member with rfl | member
    · exact ⟨by omega, by omega, le_refl _⟩
    rcases List.mem_cons.mp member with rfl | member
    · exact ⟨by omega, by omega, by omega⟩
    · rw [List.mem_singleton.mp member]
      exact inside
  · rw [if_neg dashes]
    refine ⟨_, rfl, fun note member => ?_⟩
    rcases List.mem_cons.mp member with rfl | member
    · exact ⟨by omega, by omega, le_refl _⟩
    · rw [List.mem_singleton.mp member]
      exact inside

end Backwards

/-! ### The grammar of multipart bodies -/

/-- A part: the lines of its info, and its data. -/
structure FormPart where
  info : List (List Byte)
  data : List Byte
deriving DecidableEq, Repr

namespace FormPart

/-- The info lines, joined by line ends. -/
def infoText (part : FormPart) : List Byte := List.intercalate crlf part.info

def bytes (boundary : List Byte) (part : FormPart) : List Byte :=
  ascii "--" ++ boundary ++ crlf ++ part.infoText ++ crlf ++ crlf ++ part.data ++ crlf

/-- The info has lines, none of them empty or with a control character, and the data does not
contain the delimiter. -/
structure WellFormed (boundary : List Byte) (part : FormPart) : Prop where
  nonempty : part.info ≠ []
  lines : ∀ line ∈ part.info, line ≠ [] ∧ ∀ byte ∈ line, Plain byte
  data : ¬ crlf ++ ascii "--" ++ boundary <:+: part.data

end FormPart

/-- A multipart body, up to the line end of the closing delimiter. -/
def formBody (boundary : List Byte) (parts : List FormPart) : List Byte :=
  parts.flatMap (FormPart.bytes boundary) ++ ascii "--" ++ boundary ++ ascii "--" ++ crlf

/-- A stored part denotes a part. -/
structure PartRead (before : List Byte) (stored : Request.Part) (part : FormPart) : Prop where
  info : stored.info.text before = some part.infoText
  data : stored.data.text before = some part.data

theorem PartRead.append {before : List Byte} {stored : Request.Part} {part : FormPart}
    (read : PartRead before stored part) (more : List Byte) :
    PartRead (before ++ more) stored part :=
  ⟨StringView.text_append read.info more, StringView.text_append read.data more⟩

theorem flatMap_lines (lines : List (List Byte)) (nonempty : lines ≠ []) :
    lines.flatMap (· ++ crlf) = List.intercalate crlf lines ++ crlf := by
  induction lines with
  | nil => exact absurd rfl nonempty
  | cons line rest inductionHypothesis =>
    cases rest with
    | nil => simp [List.intercalate]
    | cons next others =>
      rw [List.flatMap_cons, inductionHypothesis (List.cons_ne_nil _ _)]
      simp [List.intercalate]

theorem plain_of_token {text : List Byte} (nonempty : text ≠ [])
    (plain : ∀ byte ∈ text, Plain byte) :
    Token Plain Plain text := by
  cases text with
  | nil => exact absurd rfl nonempty
  | cons byte rest =>
    exact ⟨plain byte List.mem_cons_self, fun other member =>
      plain other (List.mem_cons_of_mem _ member)⟩

/-- A part from the line end of its delimiter up to the next boundary text. -/
def FormPart.inner (boundary : List Byte) (part : FormPart) : List Byte :=
  part.infoText ++ (crlf ++ crlf) ++ (part.data ++ CR :: (LF :: ascii "--" ++ boundary))

theorem formBody_cons (boundary : List Byte) (first : FormPart) (rest : List FormPart) :
    formBody boundary (first :: rest) = first.bytes boundary ++ formBody boundary rest := by
  simp only [formBody, List.flatMap_cons, List.append_assoc]

/-- Cut a body at the boundary texts. -/
theorem formBody_eq_inner (boundary : List Byte) (parts : List FormPart) :
    formBody boundary parts = ascii "--" ++ boundary ++
      (parts.flatMap (fun part => crlf ++ part.inner boundary) ++ (ascii "--" ++ crlf)) := by
  induction parts with
  | nil => simp [formBody]
  | cons first rest inductionHypothesis =>
    rw [formBody_cons, inductionHypothesis]
    simp [FormPart.bytes, FormPart.inner]

/-- Cut a body at the boundary texts and around one of its parts. -/
theorem formBody_split (boundary : List Byte) (front : List FormPart) (part : FormPart)
    (back : List FormPart) :
    formBody boundary (front ++ part :: back) =
      (ascii "--" ++ boundary ++ crlf) ++
        (front.flatMap (fun earlier => earlier.inner boundary ++ crlf) ++
          (part.inner boundary ++
            (back.flatMap (fun later => crlf ++ later.inner boundary) ++
              (ascii "--" ++ crlf)))) := by
  have rotate (parts : List FormPart) :
      parts.flatMap (fun earlier => crlf ++ earlier.inner boundary) ++ crlf =
        crlf ++ parts.flatMap (fun earlier => earlier.inner boundary ++ crlf) := by
    induction parts with
    | nil => simp
    | cons first rest inductionHypothesis =>
      rw [List.flatMap_cons, List.append_assoc, inductionHypothesis]
      simp
  rw [formBody_eq_inner, List.flatMap_append, List.flatMap_cons]
  have moved := congrArg (· ++ (part.inner boundary ++
    (back.flatMap (fun later => crlf ++ later.inner boundary) ++ (ascii "--" ++ crlf))))
    (rotate front)
  simp only [List.append_assoc] at moved ⊢
  rw [moved]

/-! ### Reading parts -/

section Reading

variable {after : List Byte}

/-- One info line, from the line end before it. -/
theorem runs_infoLine {before line : List Byte} {l : Locals} {prevIt : Int}
    (nonempty : line ≠ []) (plain : ∀ byte ∈ line, Plain byte)
    (state : (l.state = .boundaryMatchRn ∧ prevIt = before.length) ∨
      (l.state = .partInfoRn ∧ prevIt = l.prevIt)) :
    Runs (turn after) before (line ++ crlf) l fun _ l' =>
      l' = { l with state := .partInfoRn, prevIt } := by
  refine (plain_of_token nonempty plain).runs_append { l with state := .partInfoStart, prevIt }
    ?_ ?_ (runs_cons fun ahead => ?_)
  · intro symbol ahead plainSymbol
    have notEnd := Plain.ne_CR plainSymbol
    rcases state with ⟨state, rfl⟩ | ⟨state, rfl⟩ <;> simp [turn, state, plainSymbol, notEnd]
  · intro symbol before' ahead plainSymbol
    have notEnd := Plain.ne_CR plainSymbol
    simp [turn, plainSymbol, notEnd]
  simp only [turn, if_true, onward_go]
  refine runs_cons fun ahead => ?_
  simp only [turn, if_true, onward_go]
  exact runs_nil rfl

theorem runs_infoLines {before : List Byte} {l : Locals} (lines : List (List Byte))
    (good : ∀ line ∈ lines, line ≠ [] ∧ ∀ byte ∈ line, Plain byte) (state : l.state = .partInfoRn) :
    Runs (turn after) before (lines.flatMap (· ++ crlf)) l fun _ l' => l' = l := by
  induction lines generalizing before with
  | nil => exact runs_nil rfl
  | cons line rest inductionHypothesis =>
    obtain ⟨nonempty, plain⟩ := good line List.mem_cons_self
    refine Runs.append (runs_infoLine nonempty plain (Or.inr ⟨state, rfl⟩)) ?_
    rintro l' rfl
    have same : ({ l with state := .partInfoRn, prevIt := l.prevIt } : Locals) = l := by
      rw [← state]
    rw [same]
    exact inductionHypothesis fun other member => good other (List.mem_cons_of_mem _ member)

/-- The info of a part and the empty line after it. -/
theorem runs_info {before : List Byte} {l : Locals} (part : FormPart) (nonempty : part.info ≠ [])
    (good : ∀ line ∈ part.info, line ≠ [] ∧ ∀ byte ∈ line, Plain byte)
    (state : l.state = .boundaryMatchRn) :
    Runs (turn after) before (part.infoText ++ (crlf ++ crlf)) l fun _ l' =>
      l' = { l with
        state := .partInfoRnrn
        prevIt := before.length
        req := { l.req with parts := l.req.parts ++
          [{ info := .range before.length (before ++ part.infoText).length }] } } := by
  have lines := flatMap_lines part.info nonempty
  rw [← FormPart.infoText] at lines
  rw [← List.append_assoc, ← lines]
  cases shape : part.info with
  | nil => exact absurd shape nonempty
  | cons line rest =>
    rw [shape] at good
    rw [List.flatMap_cons, List.append_assoc (line ++ crlf)]
    obtain ⟨lineNonempty, plain⟩ := good line List.mem_cons_self
    refine Runs.append (runs_infoLine lineNonempty plain (Or.inl ⟨state, rfl⟩)) ?_
    rintro _ rfl
    refine Runs.append (runs_infoLines rest
      (fun other member => good other (List.mem_cons_of_mem _ member)) rfl) ?_
    rintro _ rfl
    have read : before ++ (line ++ crlf) ++ rest.flatMap (· ++ crlf) =
        before ++ part.infoText ++ crlf := by
      rw [List.append_assoc, List.append_assoc before part.infoText, ← lines, shape,
        List.flatMap_cons]
    rw [read]
    refine runs_cons fun ahead => ?_
    simp only [turn, if_true, onward_go]
    refine runs_cons fun ahead => ?_
    simp only [turn, if_true, onward_go]
    refine runs_nil ?_
    simp
    omega

/-- A part's body, from its first byte on: while no carriage return is a hit the loop stays. -/
theorem runs_quiet {pre boundary text : List Byte} {l : Locals} (rest : List Byte)
    (state : l.state = .partBodyStart)
    (denotes : l.req.partBoundary.text pre = some boundary)
    (within : boundary.length ≤ pre.length) (noLF : LF ∉ boundary)
    (quiet : Quiet boundary (text ++ rest)) :
    Runs (turn after) (pre ++ LF :: text) rest l fun _ l' => l' = l := by
  induction rest generalizing text with
  | nil => exact runs_nil rfl
  | cons byte rest inductionHypothesis =>
    have shift : pre ++ LF :: text ++ [byte] = pre ++ LF :: (text ++ [byte]) := by simp
    refine runs_cons fun ahead => ?_
    have stays : ∃ notes, turn after (pre ++ LF :: text) byte ahead l = .go l notes := by
      by_cases carriage : byte = CR
      · have miss := quiet_iff.mp quiet text rest (by rw [carriage])
        obtain ⟨notes, turned, _⟩ := matchBoundaryBackwards_miss
          (StringView.text_append denotes (LF :: text)) within noLF miss
        exact ⟨notes, by rw [turn]; simp only [state, carriage, if_true]; exact turned⟩
      · exact ⟨[], by rw [turn]; simp only [state, carriage, if_false]⟩
    obtain ⟨notes, turned⟩ := stays
    rw [turned, onward_go, shift]
    exact inductionHypothesis (by simpa using quiet)

/-- A part's body from the empty line before it. The first byte is taken whatever it is. -/
theorem runs_body {pre boundary : List Byte} {l : Locals} (text : List Byte)
    (nonempty : text ≠ []) (state : l.state = .partInfoRnrn)
    (denotes : l.req.partBoundary.text pre = some boundary)
    (within : boundary.length ≤ pre.length) (noLF : LF ∉ boundary)
    (quiet : Quiet boundary text) :
    Runs (turn after) (pre ++ [LF]) text l fun _ l' =>
      l' = { l with state := .partBodyStart, prevIt := (pre ++ [LF]).length } := by
  cases text with
  | nil => exact absurd rfl nonempty
  | cons byte rest =>
    refine runs_cons fun ahead => ?_
    rw [turn]
    simp only [state, onward_go]
    have shift : pre ++ [LF] ++ [byte] = pre ++ LF :: [byte] := by simp
    rw [shift]
    exact runs_quiet rest rfl denotes within noLF quiet

/-- The end of the data and what stands before the next boundary hold no further carriage
return, so only the data decides whether the stretch is quiet. -/
theorem quiet_append {boundary data tail : List Byte} (noCR : CR ∉ tail) :
    Quiet boundary (data ++ CR :: tail) ↔ Quiet boundary (data ++ [CR]) := by
  rw [quiet_iff, quiet_iff]
  constructor
  · intro quiet left right same
    refine quiet left (right ++ tail) ?_
    rw [← List.cons_append, ← List.append_assoc, ← same]
    simp
  · intro quiet left right same
    rcases List.append_eq_append_iff.mp same with ⟨beyond, sameLeft, sameTail⟩ |
      ⟨beyond, sameData, sameRight⟩
    · cases beyond with
      | nil => exact quiet left [] (by rw [sameLeft]; simp)
      | cons byte beyond =>
        rw [List.cons_append] at sameTail
        injection sameTail with _ sameTail
        exact absurd (by rw [sameTail]; simp) noCR
    · cases beyond with
      | nil => exact quiet left [] (by rw [sameData]; simp)
      | cons byte beyond =>
        rw [List.cons_append] at sameRight
        injection sameRight with sameByte _
        exact quiet left (beyond ++ [CR]) (by rw [sameData, ← sameByte]; simp)

/-- A part from the line end of its delimiter to a stretch `tail` without carriage return. -/
theorem runs_partOpen {before boundary tail : List Byte} {l : Locals} {part : FormPart}
    (good : part.WellFormed boundary) (state : l.state = .boundaryMatchRn)
    (denotes : l.req.partBoundary.text before = some boundary)
    (within : boundary.length ≤ before.length) (noLF : LF ∉ boundary) (noCR : CR ∉ tail)
    (quiet : Quiet boundary (part.data ++ [CR])) :
    Runs (turn after) before (part.infoText ++ (crlf ++ crlf) ++ (part.data ++ CR :: tail)) l
      fun _ l' => l' = { l with
        state := .partBodyStart
        prevIt := (before ++ part.infoText ++ crlf ++ crlf).length
        req := { l.req with parts := l.req.parts ++
          [{ info := .range before.length (before ++ part.infoText).length }] } } := by
  refine Runs.append (runs_info part good.nonempty good.lines state) ?_
  rintro _ rfl
  have shift : before ++ (part.infoText ++ (crlf ++ crlf)) =
      (before ++ part.infoText ++ crlf ++ [CR]) ++ [LF] := by simp
  rw [shift]
  refine (runs_body _ (by simp) rfl ?_ ?_ noLF ((quiet_append noCR).mpr quiet)).mono ?_
  · have grown := StringView.text_append denotes (part.infoText ++ crlf ++ [CR])
    simpa using grown
  · simp only [List.length_append]
    omega
  · rintro _ rfl
    simp

/-- What a body has stored beyond the request `req` of its head. -/
structure PartsRead (req : Request) (remaining : UInt64) (parts : List FormPart)
    (before : List Byte) (l : Locals) : Prop where
  remaining : l.remainingContentSize = remaining
  stored : ∃ stored, l.req = { req with parts := stored } ∧
    List.Forall₂ (PartRead before) stored parts

theorem PartsRead.append {req : Request} {remaining : UInt64} {parts : List FormPart}
    {before : List Byte} {l : Locals} (read : PartsRead req remaining parts before l)
    (more : List Byte) : PartsRead req remaining parts (before ++ more) l := by
  obtain ⟨same, stored, reqSame, texts⟩ := read
  exact ⟨same, stored, reqSame, List.Forall₂.imp (fun _ _ part => part.append more) texts⟩

/-- The methods whose requests have a body. -/
def HasBody (method : List Byte) : Prop := method = ascii "POST" ∨ method = ascii "PUT"

instance (method : List Byte) : Decidable (HasBody method) := by unfold HasBody; infer_instance

/-- The test on the method that decides whether a body follows. -/
theorem same_method_iff {req : Request} {before method : List Byte}
    (stored : req.method.text before = some method) :
    (req.method.same before (.elsewhere (ascii "POST")) ||
      req.method.same before (.elsewhere (ascii "PUT"))) = true ↔ HasBody method := by
  rw [Bool.or_eq_true, StringView.same_iff_of_text stored rfl,
    StringView.same_iff_of_text stored rfl, HasBody]

/-- The first delimiter, from the empty line of the head up to its line end. -/
theorem runs_delimiter (after : List Byte) {before token method : List Byte} {l : Locals}
    (state : l.state = .headerRnrn) (stored : l.req.method.text before = some method)
    (hasBody : HasBody method) (multipart : l.req.isMultipart = true)
    (plain : Token Plain Plain token) :
    Runs (turn after) before (ascii "--" ++ token) l fun _ l' =>
      l' = { l with state := .boundaryMatchStart, prevIt := (before ++ ascii "--").length } := by
  have shape : ascii "--" ++ token = chr '-' :: chr '-' :: token := by simp [ascii]
  have shift : before ++ ascii "--" = before ++ [chr '-'] ++ [chr '-'] := by simp [ascii]
  rw [shape, shift]
  refine runs_cons fun ahead => ?_
  rw [turn]
  simp only [state, (same_method_iff stored).mpr hasBody, if_true, multipart, Bool.not_true,
    Bool.false_eq_true, if_false, onward_go]
  refine runs_cons fun ahead => ?_
  simp only [turn, if_true, onward_go]
  refine plain.runs _ (fun symbol ahead plainSymbol => ?_)
    (fun symbol before' ahead plainSymbol => ?_)
    rfl
  · simp [turn, plainSymbol]
  · have notEnd := Plain.ne_CR plainSymbol
    simp [turn, plainSymbol, notEnd]

/-- At the line end of the first delimiter its text is compared with the boundary. -/
theorem delimiter_same_iff {before token boundary : List Byte} {view : StringView}
    (denotes : view.text before = some boundary) :
    (StringView.range (before ++ ascii "--").length (before ++ (ascii "--" ++ token)).length).same
      (before ++ (ascii "--" ++ token)) view = true ↔ token = boundary := by
  refine StringView.same_iff_of_text ?_ (StringView.text_append denotes _)
  exact StringView.text_range (before ++ ascii "--") token [] (by simp) rfl (by simp)

/-- The first delimiter, from the empty line of the head on. -/
theorem runs_opening {before boundary method : List Byte} {l : Locals}
    (state : l.state = .headerRnrn) (stored : l.req.method.text before = some method)
    (hasBody : HasBody method) (multipart : l.req.isMultipart = true) (noParts : l.req.parts = [])
    (token : Token Plain Plain boundary)
    (denotes : l.req.partBoundary.text before = some boundary) :
    Runs (turn after) before (ascii "--" ++ boundary ++ crlf) l fun before' l' =>
      l'.state = .boundaryMatchRn ∧ PartsRead l.req l.remainingContentSize [] before' l' := by
  refine Runs.append (runs_delimiter after state stored hasBody multipart token) ?_
  rintro l' rfl
  refine runs_cons fun ahead => ?_
  simp only [turn, if_true, (delimiter_same_iff denotes).mpr rfl, onward_go]
  refine runs_cons fun ahead => ?_
  simp only [turn, if_true, onward_go]
  refine runs_nil ⟨rfl, rfl, [], ?_, .nil⟩
  rw [← noParts]

/-- A part followed by another one: at the carriage return after the boundary its data is
stored. -/
theorem runs_middlePart {before boundary : List Byte} {l : Locals} {part : FormPart}
    {parts : List FormPart} {req : Request} {remaining : UInt64}
    (read : PartsRead req remaining parts before l)
    (good : part.WellFormed boundary) (state : l.state = .boundaryMatchRn)
    (denotes : req.partBoundary.text before = some boundary)
    (within : boundary.length ≤ before.length) (noLF : LF ∉ boundary) (noCR : CR ∉ boundary)
    (quiet : Quiet boundary (part.data ++ [CR])) :
    Runs (turn after) before (part.inner boundary ++ crlf) l fun before' l' =>
      l'.state = .boundaryMatchRn ∧ PartsRead req remaining (parts ++ [part]) before' l' := by
  obtain ⟨sameRemaining, stored, sameReq, texts⟩ := read
  have denotes' : l.req.partBoundary.text before = some boundary := by rw [sameReq]; exact denotes
  refine Runs.append (runs_partOpen good state denotes' within noLF (by simp [noCR, ascii]; decide)
    quiet) ?_
  rintro inside reached
  have shift : before ++ part.inner boundary =
      (before ++ part.infoText ++ crlf ++ [CR]) ++
        LF :: (part.data ++ CR :: (LF :: ascii "--" ++ boundary)) := by simp [FormPart.inner]
  have later : inside.req.partBoundary.text ((before ++ part.infoText ++ crlf ++ [CR]) ++
      LF :: (part.data ++ CR :: (LF :: ascii "--" ++ boundary))) = some boundary := by
    rw [reached]
    have grown := StringView.text_append denotes'
      (part.infoText ++ crlf ++ [CR] ++ LF :: (part.data ++ CR :: (LF :: ascii "--" ++ boundary)))
    simpa using grown
  have hit := matchBoundaryBackwards_boundary later
    (by simp only [List.length_append]; omega) noLF (by rw [reached])
    ⟨part.data ++ CR :: (LF :: ascii "--"), by simp⟩
  refine runs_cons fun ahead => ?_
  rw [turn, shift]
  simp only [show inside.state = .partBodyStart by rw [reached], if_true]
  rw [hit, onward_go]
  refine runs_cons fun ahead => ?_
  simp only [turn, if_true, onward_go]
  refine runs_nil ⟨rfl, by rw [← sameRemaining, reached], _, by rw [reached, sameReq],
    List.rel_append ?_ (.cons ?_ .nil)⟩
  · refine List.Forall₂.imp (fun _ _ stored => ?_) texts
    have grown := stored.append (part.infoText ++ crlf ++ [CR] ++
      LF :: (part.data ++ CR :: (LF :: ascii "--" ++ boundary)) ++ [CR] ++ [LF])
    simpa using grown
  · refine ⟨StringView.text_range before part.infoText (crlf ++ [CR] ++
      LF :: (part.data ++ CR :: (LF :: ascii "--" ++ boundary)) ++ [CR] ++ [LF]) (by simp) rfl rfl,
      StringView.text_range (before ++ part.infoText ++ crlf ++ crlf) part.data
      (CR :: (LF :: ascii "--" ++ boundary) ++ [CR] ++ [LF]) (by simp) rfl ?_⟩
    simp [ascii]
    omega

/-- Parts that other parts follow. -/
theorem runs_middleParts {before boundary : List Byte} {l : Locals} {req : Request}
    {remaining : UInt64} {parts : List FormPart} (more : List FormPart)
    (read : PartsRead req remaining parts before l)
    (good : ∀ part ∈ more, part.WellFormed boundary) (state : l.state = .boundaryMatchRn)
    (denotes : req.partBoundary.text before = some boundary)
    (within : boundary.length ≤ before.length) (noLF : LF ∉ boundary) (noCR : CR ∉ boundary)
    (quiet : ∀ part ∈ more, Quiet boundary (part.data ++ [CR])) :
    Runs (turn after) before (more.flatMap fun part => part.inner boundary ++ crlf) l
      fun before' l' =>
        l'.state = .boundaryMatchRn ∧ PartsRead req remaining (parts ++ more) before' l' := by
  induction more generalizing before l parts with
  | nil => exact runs_nil ⟨state, by rwa [List.append_nil]⟩
  | cons part rest inductionHypothesis =>
    rw [List.flatMap_cons]
    refine Runs.append (runs_middlePart read (good part List.mem_cons_self) state denotes within
      noLF noCR (quiet part List.mem_cons_self)) ?_
    rintro l' ⟨state', read'⟩
    refine (inductionHypothesis read'
      (fun other member => good other (List.mem_cons_of_mem _ member))
      state' (StringView.text_append denotes _) (by simp only [List.length_append]; omega)
      (fun other member => quiet other (List.mem_cons_of_mem _ member))).mono ?_
    rintro l'' ⟨state'', read''⟩
    exact ⟨state'', by simpa using read''⟩

/-- The last part up to the dashes of the closing delimiter. -/
theorem runs_lastPart {before boundary : List Byte} {l : Locals} {part : FormPart}
    {parts : List FormPart} {req : Request} {remaining : UInt64}
    (read : PartsRead req remaining parts before l)
    (good : part.WellFormed boundary) (state : l.state = .boundaryMatchRn)
    (denotes : req.partBoundary.text before = some boundary)
    (within : boundary.length ≤ before.length) (noLF : LF ∉ boundary) (noCR : CR ∉ boundary)
    (quiet : Quiet boundary (part.data ++ [CR])) :
    Runs (turn after) before (part.inner boundary ++ ascii "--") l fun _ l' =>
      l' = { l with
        state := .partBodyStart
        prevIt := (before ++ part.infoText ++ crlf ++ crlf).length
        req := { l.req with parts := l.req.parts ++
          [{ info := .range before.length (before ++ part.infoText).length }] } } := by
  have denotes' : l.req.partBoundary.text before = some boundary := by
    obtain ⟨_, stored, sameReq, _⟩ := read
    rw [sameReq]
    exact denotes
  have shape : part.inner boundary ++ ascii "--" = part.infoText ++ (crlf ++ crlf) ++
      (part.data ++ CR :: (LF :: ascii "--" ++ boundary ++ ascii "--")) := by simp [FormPart.inner]
  rw [shape]
  exact runs_partOpen good state denotes' within noLF (by simp [noCR, ascii]; decide) quiet

/-- The last part and the closing delimiter up to its carriage return. If the boundary is not
made of dashes the part's data is stored. -/
theorem runs_closing {before boundary : List Byte} {l : Locals} {part : FormPart}
    {parts : List FormPart} {req : Request} {remaining : UInt64}
    (read : PartsRead req remaining parts before l)
    (good : part.WellFormed boundary) (state : l.state = .boundaryMatchRn)
    (denotes : req.partBoundary.text before = some boundary)
    (within : boundary.length ≤ before.length) (noLF : LF ∉ boundary) (noCR : CR ∉ boundary)
    (quiet : Quiet boundary (part.data ++ [CR])) :
    Runs (turn after) before (part.inner boundary ++ ascii "--" ++ [CR]) l fun before' l' =>
      ((∀ byte ∈ boundary, byte = chr '-') ∧ l'.state = .boundaryMatchR) ∨
      ((¬ ∀ byte ∈ boundary, byte = chr '-') ∧ l'.state = .lastBoundaryMatch ∧
        PartsRead req remaining (parts ++ [part]) before' l') := by
  refine Runs.append (runs_lastPart read good state denotes within noLF noCR quiet) ?_
  rintro inside reached
  obtain ⟨sameRemaining, stored, sameReq, texts⟩ := read
  have shift : before ++ (part.inner boundary ++ ascii "--") =
      (before ++ part.infoText ++ crlf ++ [CR]) ++
        LF :: (part.data ++ CR :: (LF :: ascii "--" ++ boundary ++ ascii "--")) := by
    simp [FormPart.inner]
  have later : inside.req.partBoundary.text ((before ++ part.infoText ++ crlf ++ [CR]) ++
      LF :: (part.data ++ CR :: (LF :: ascii "--" ++ boundary ++ ascii "--"))) = some boundary := by
    rw [reached, sameReq]
    have grown := StringView.text_append denotes (part.infoText ++ crlf ++ [CR] ++
      LF :: (part.data ++ CR :: (LF :: ascii "--" ++ boundary ++ ascii "--")))
    simpa using grown
  have room : boundary.length ≤ (before ++ part.infoText ++ crlf ++ [CR]).length := by
    simp only [List.length_append]
    omega
  have tail : boundary <:+ part.data ++ CR :: (LF :: ascii "--" ++ boundary ++ ascii "--") ↔
      ∀ byte ∈ boundary, byte = chr '-' := by
    rw [← suffix_dashes_iff]
    have closes : boundary ++ ascii "--" <:+
        part.data ++ CR :: (LF :: ascii "--" ++ boundary ++ ascii "--") :=
      ⟨part.data ++ CR :: (LF :: ascii "--"), by simp⟩
    exact ⟨fun ends => List.suffix_of_suffix_length_le ends closes (by simp),
      fun ends => ends.trans closes⟩
  have stored' : inside.req.parts = stored ++
      [{ info := .range before.length (before ++ part.infoText).length }] := by
    rw [reached, sameReq]
  refine runs_cons fun ahead => ?_
  rw [turn, shift]
  simp only [show inside.state = .partBodyStart by rw [reached], if_true]
  by_cases dashes : ∀ byte ∈ boundary, byte = chr '-'
  · rw [matchBoundaryBackwards_boundary later room noLF stored' (tail.mpr dashes), onward_go]
    exact runs_nil (Or.inl ⟨dashes, rfl⟩)
  · rw [matchBoundaryBackwards_last later room noLF stored' (fun ends => dashes (tail.mp ends))
      ⟨part.data ++ CR :: (LF :: ascii "--"), by simp⟩, onward_go]
    refine runs_nil (Or.inr ⟨dashes, rfl, by rw [← sameRemaining, reached], _,
      by rw [reached, sameReq], List.rel_append ?_ (.cons ?_ .nil)⟩)
    · refine List.Forall₂.imp (fun _ _ stored => ?_) texts
      have grown := stored.append (part.infoText ++ crlf ++ [CR] ++
        LF :: (part.data ++ CR :: (LF :: ascii "--" ++ boundary ++ ascii "--")) ++ [CR])
      simpa using grown
    · refine ⟨StringView.text_range before part.infoText (crlf ++ [CR] ++
        LF :: (part.data ++ CR :: (LF :: ascii "--" ++ boundary ++ ascii "--")) ++ [CR])
        (by simp) rfl rfl,
        StringView.text_range (before ++ part.infoText ++ crlf ++ crlf) part.data
        (CR :: (LF :: ascii "--" ++ boundary ++ ascii "--") ++ [CR]) (by simp) rfl ?_⟩
      simp [ascii]
      omega

end Reading

end RequestParser

end Sheep
