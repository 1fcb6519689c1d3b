/-
This file models what the parsers borrow from C and C++: signed characters and
the character classes of the C locale, string views as pairs of iterators into
the buffer being parsed, `find`, and the conversions `atoi` and `stoi`.
-/

import Mathlib.Data.List.Infix
import Mathlib.Data.Int.ModEq

namespace Sheep

abbrev Byte := UInt8

/-- The byte of an ASCII character. -/
def chr (character : Char) : Byte := UInt8.ofNat character.toNat

/-- The bytes of an ASCII text. -/
def ascii (text : String) : List Byte := text.toList.map chr

abbrev CR : Byte := 13
abbrev LF : Byte := 10
abbrev SP : Byte := 32
abbrev crlf : List Byte := [CR, LF]

/-! ### Character classes -/

/-- `char` is signed on the target: bytes from `0x80` on are negative. -/
def signedChar (byte : Byte) : Int :=
  if byte.toNat < 128 then byte.toNat else (byte.toNat : Int) - 256

def isDigit (byte : Byte) : Bool :=
  decide (48 ≤ signedChar byte ∧ signedChar byte ≤ 57)

def isAlpha (byte : Byte) : Bool :=
  decide ((65 ≤ signedChar byte ∧ signedChar byte ≤ 90) ∨
    (97 ≤ signedChar byte ∧ signedChar byte ≤ 122))

def isAlnum (byte : Byte) : Bool := isAlpha byte || isDigit byte

def isSpace (byte : Byte) : Bool :=
  decide ((9 ≤ signedChar byte ∧ signedChar byte ≤ 13) ∨ signedChar byte = 32)

theorem isDigit_iff (byte : Byte) : isDigit byte ↔ 48 ≤ byte.toNat ∧ byte.toNat ≤ 57 := by
  have bounded := byte.toNat_lt
  rw [isDigit, decide_eq_true_eq, signedChar]
  split <;> omega

theorem isAlpha_iff (byte : Byte) :
    isAlpha byte ↔ (65 ≤ byte.toNat ∧ byte.toNat ≤ 90) ∨ (97 ≤ byte.toNat ∧ byte.toNat ≤ 122) := by
  have bounded := byte.toNat_lt
  rw [isAlpha, decide_eq_true_eq, signedChar]
  split <;> omega

theorem isSpace_iff (byte : Byte) :
    isSpace byte ↔ (9 ≤ byte.toNat ∧ byte.toNat ≤ 13) ∨ byte.toNat = 32 := by
  have bounded := byte.toNat_lt
  rw [isSpace, decide_eq_true_eq, signedChar]
  split <;> omega

theorem not_isSpace_of_isDigit {byte : Byte} (digit : isDigit byte) : ¬ isSpace byte := by
  rw [isDigit_iff] at digit
  rw [isSpace_iff]
  omega

/-! ### String views -/

/-- A `std::string_view`: a pair of iterators into the buffer being parsed, or text that lies
elsewhere (a literal, another buffer, or the null view). -/
inductive StringView
  | range (first last : Int)
  | elsewhere (text : List Byte)
deriving DecidableEq, Repr

namespace StringView

/-- The null view. -/
def empty : StringView := .elsewhere []

def size : StringView → Int
  | .range first last => last - first
  | .elsewhere text => text.length

/-- The bytes a view denotes. Reading a range that does not lie in order inside the buffer is
undefined. -/
def text (buffer : List Byte) : StringView → Option (List Byte)
  | .range first last =>
      if 0 ≤ first ∧ first ≤ last ∧ last ≤ buffer.length then
        some ((buffer.drop first.toNat).take (last - first).toNat)
      else none
  | .elsewhere text => some text

/-- `operator==` of two views. -/
def same (buffer : List Byte) (first second : StringView) : Bool :=
  match first.text buffer, second.text buffer with
  | some left, some right => left == right
  | _, _ => false

/-- The view denotes a range of a buffer of this length, with its ends in order. -/
def InBuffer (length : Nat) : StringView → Prop
  | .range first last => 0 ≤ first ∧ first ≤ last ∧ last ≤ length
  | .elsewhere _ => True

instance (length : Nat) (view : StringView) : Decidable (view.InBuffer length) := by
  cases view <;> unfold InBuffer <;> infer_instance

/-- The view between two splitting points denotes the bytes between them. -/
theorem text_range (left middle right : List Byte) {buffer : List Byte} {first last : Int}
    (split : buffer = left ++ middle ++ right) (starts : first = left.length)
    (ends : last = (left ++ middle).length) :
    (range first last).text buffer = some middle := by
  subst split starts ends
  have inside : (0 : Int) ≤ left.length ∧ (left.length : Int) ≤ (left ++ middle).length ∧
      ((left ++ middle).length : Int) ≤ (left ++ middle ++ right).length := by
    simp only [List.length_append]
    omega
  have count : (((left ++ middle).length : Int) - left.length).toNat = middle.length := by
    simp only [List.length_append]
    omega
  rw [text, if_pos inside, count, Int.toNat_natCast, List.append_assoc, List.drop_left,
    List.take_left]

/-- Growing the buffer keeps what a view denotes. -/
theorem text_append {buffer : List Byte} {view : StringView} {content : List Byte}
    (denotes : view.text buffer = some content) (more : List Byte) :
    view.text (buffer ++ more) = some content := by
  cases view with
  | elsewhere text => exact denotes
  | range first last =>
    simp only [text] at denotes ⊢
    split at denotes
    · rename_i inside
      rw [if_pos (by simp only [List.length_append]; omega),
        List.drop_append_of_le_length (by omega),
        List.take_append_of_le_length (by rw [List.length_drop]; omega)]
      exact denotes
    · cases denotes

theorem inBuffer_of_text {buffer content : List Byte} {view : StringView}
    (denotes : view.text buffer = some content) : view.InBuffer buffer.length := by
  cases view with
  | elsewhere text => trivial
  | range first last =>
    simp only [text] at denotes
    split at denotes
    · assumption
    · cases denotes

theorem InBuffer.mono {shorter longer : Nat} {view : StringView} (inside : view.InBuffer shorter)
    (le : shorter ≤ longer) : view.InBuffer longer := by
  cases view with
  | elsewhere text => trivial
  | range first last =>
    obtain ⟨low, ordered, high⟩ := inside
    exact ⟨low, ordered, le_trans high (Int.ofNat_le.mpr le)⟩

/-- A view that denotes some text in the buffer has that text's length. -/
theorem size_of_text {buffer content : List Byte} {view : StringView}
    (denotes : view.text buffer = some content) : view.size = content.length := by
  cases view with
  | elsewhere text =>
    injection denotes with same
    rw [← same, size]
  | range first last =>
    simp only [text] at denotes
    split at denotes
    · rename_i inside
      injection denotes with same
      rw [← same, size, List.length_take, List.length_drop]
      omega
    · cases denotes

theorem same_iff_of_text {buffer left right : List Byte} {first second : StringView}
    (firstText : first.text buffer = some left) (secondText : second.text buffer = some right) :
    first.same buffer second ↔ left = right := by
  simp only [same, firstText, secondText, beq_iff_eq]

end StringView

/-! ### Searching -/

/-- `std::string_view::find`: the first position of a pattern, `none` for `npos`. -/
def find (pattern : List Byte) : List Byte → Option Nat
  | [] => if pattern.isPrefixOf [] then some 0 else none
  | byte :: rest =>
      if pattern.isPrefixOf (byte :: rest) then some 0
      else (find pattern rest).map (· + 1)

/-- The first occurrence of a pattern. -/
def FirstOccurrence (pattern text : List Byte) (position : Nat) : Prop :=
  pattern <+: text.drop position ∧ ∀ earlier < position, ¬ pattern <+: text.drop earlier

theorem firstOccurrence_of_find {pattern text : List Byte} {position : Nat}
    (found : find pattern text = some position) : FirstOccurrence pattern text position := by
  induction text generalizing position with
  | nil =>
    rw [find] at found
    split at found
    · rename_i here
      injection found with zero
      subst zero
      exact ⟨List.isPrefixOf_iff_prefix.mp here,
        fun earlier less => absurd less (Nat.not_lt_zero _)⟩
    · cases found
  | cons byte rest inductionHypothesis =>
    rw [find] at found
    split at found
    · rename_i here
      injection found with zero
      subst zero
      exact ⟨List.isPrefixOf_iff_prefix.mp here,
        fun earlier less => absurd less (Nat.not_lt_zero _)⟩
    · rename_i notHere
      obtain ⟨later, foundLater, same⟩ := Option.map_eq_some_iff.mp found
      subst same
      obtain ⟨occurs, earliest⟩ := inductionHypothesis foundLater
      refine ⟨occurs, fun earlier less => ?_⟩
      cases earlier with
      | zero => exact fun here => notHere (List.isPrefixOf_iff_prefix.mpr here)
      | succ earlier => exact earliest earlier (Nat.lt_of_succ_lt_succ less)

theorem length_le_of_find {pattern text : List Byte} {position : Nat}
    (found : find pattern text = some position) : position + pattern.length ≤ text.length ∨
      pattern = [] := by
  have occurs := (firstOccurrence_of_find found).1.length_le
  rw [List.length_drop] at occurs
  by_cases inside : position ≤ text.length
  · exact Or.inl (by omega)
  · exact Or.inr (List.length_eq_zero_iff.mp (by omega))

/-! ### Numbers -/

/-- The value of a string of decimal digits. -/
def decimalValue (digits : List Byte) : Nat :=
  digits.foldl (fun value byte => value * 10 + (byte.toNat - 48)) 0

/-- `strtol` in base 10 on a 64-bit `long`: leading white space, a sign, and digits up to the
first byte that is none, saturating at the ends of the type. -/
def strtol (text : List Byte) : Int :=
  match text.dropWhile isSpace with
  | [] => 0
  | byte :: rest =>
      if byte = chr '-' then max (-(2 ^ 63)) (-(decimalValue (rest.takeWhile isDigit) : Int))
      else if byte = chr '+' then min (2 ^ 63 - 1) (decimalValue (rest.takeWhile isDigit))
      else min (2 ^ 63 - 1) (decimalValue ((byte :: rest).takeWhile isDigit))

/-- `atoi` reads on from the pointer it is given and narrows `strtol` to a 32-bit `int`. -/
def atoi (text : List Byte) : Int := (strtol text).bmod (2 ^ 32)

/-- `atoi` on a run of digits that something else ends. -/
theorem atoi_digits {digits : List Byte} {next : Byte} {rest : List Byte} (nonempty : digits ≠ [])
    (allDigits : ∀ byte ∈ digits, isDigit byte) (stops : ¬ isDigit next) :
    atoi (digits ++ next :: rest) =
      (min (2 ^ 63 - 1) (decimalValue digits) : Int).bmod (2 ^ 32) := by
  have taken : (digits ++ next :: rest).takeWhile isDigit = digits := by
    rw [List.takeWhile_append_of_pos (fun byte member => allDigits byte member),
      List.takeWhile_cons_of_neg stops, List.append_nil]
  cases digits with
  | nil => exact absurd rfl nonempty
  | cons byte others =>
    have digit : isDigit byte := allDigits byte List.mem_cons_self
    have kept : (byte :: others ++ next :: rest).dropWhile isSpace =
        byte :: (others ++ next :: rest) := by
      rw [List.cons_append, List.dropWhile_cons_of_neg (not_isSpace_of_isDigit digit)]
    have notMinus : byte ≠ chr '-' := by
      rintro rfl
      exact absurd digit (by decide)
    have notPlus : byte ≠ chr '+' := by
      rintro rfl
      exact absurd digit (by decide)
    rw [atoi, strtol, kept]
    simp only [if_neg notMinus, if_neg notPlus]
    rw [← List.cons_append, taken]

/-- `is_hex_char`. -/
def isHexChar (byte : Byte) : Bool :=
  decide ((48 ≤ signedChar byte ∧ signedChar byte ≤ 57) ∨
    (97 ≤ signedChar byte ∧ signedChar byte ≤ 102) ∨
    (65 ≤ signedChar byte ∧ signedChar byte ≤ 70))

def hexDigit (byte : Byte) : Nat :=
  if byte.toNat ≤ 57 then byte.toNat - 48 else if byte.toNat ≤ 70 then byte.toNat - 55
  else byte.toNat - 87

/-- The value of a string of hexadecimal digits. -/
def hexValue (digits : List Byte) : Nat :=
  digits.foldl (fun value byte => value * 16 + hexDigit byte) 0

/-- The optional prefix of a hexadecimal number. -/
def dropHexPrefix : List Byte → List Byte
  | first :: second :: rest =>
      if first = chr '0' ∧ (second = chr 'x' ∨ second = chr 'X') then rest
      else first :: second :: rest
  | short => short

/-- `stoi` in base 16: leading white space, a sign, a prefix and digits up to the first byte that
is none. It throws where there is no digit, and where the value does not fit into an `int`. -/
def stoi16 (text : List Byte) : Option Int :=
  let trimmed := text.dropWhile isSpace
  let negative := trimmed.head? == some (chr '-')
  let unsigned := if negative || trimmed.head? == some (chr '+') then trimmed.tail else trimmed
  let digits := (dropHexPrefix unsigned).takeWhile isHexChar
  let value : Int := if negative then -hexValue digits else hexValue digits
  if digits = [] then none
  else if -(2 ^ 31) ≤ value ∧ value < 2 ^ 31 then some value
  else none

theorem isHexChar_iff (byte : Byte) : isHexChar byte ↔ (48 ≤ byte.toNat ∧ byte.toNat ≤ 57) ∨
    (97 ≤ byte.toNat ∧ byte.toNat ≤ 102) ∨ (65 ≤ byte.toNat ∧ byte.toNat ≤ 70) := by
  have bounded := byte.toNat_lt
  rw [isHexChar, decide_eq_true_eq, signedChar]
  split <;> omega

theorem dropHexPrefix_digits {digits rest : List Byte} {next : Byte}
    (allDigits : ∀ byte ∈ digits, isHexChar byte) (plain : next ≠ chr 'x' ∧ next ≠ chr 'X')
    (nonempty : digits ≠ []) : dropHexPrefix (digits ++ next :: rest) = digits ++ next :: rest := by
  obtain ⟨first, others, rfl⟩ := List.exists_cons_of_ne_nil nonempty
  cases others with
  | nil => exact if_neg fun ⟨_, marks⟩ => marks.elim plain.1 plain.2
  | cons second more =>
    refine if_neg ?_
    rintro ⟨_, rfl | rfl⟩
    · exact absurd (allDigits _ (List.mem_cons_of_mem _ List.mem_cons_self)) (by decide)
    · exact absurd (allDigits _ (List.mem_cons_of_mem _ List.mem_cons_self)) (by decide)

/-- `stoi` on a run of hexadecimal digits that something else ends. -/
theorem stoi16_digits {digits rest : List Byte} {next : Byte} (nonempty : digits ≠ [])
    (allDigits : ∀ byte ∈ digits, isHexChar byte) (stops : ¬ isHexChar next)
    (plain : next ≠ chr 'x' ∧ next ≠ chr 'X') :
    stoi16 (digits ++ next :: rest) =
      if hexValue digits < 2 ^ 31 then some (hexValue digits : Int) else none := by
  have taken : (digits ++ next :: rest).takeWhile isHexChar = digits := by
    rw [List.takeWhile_append_of_pos (fun byte member => allDigits byte member),
      List.takeWhile_cons_of_neg stops, List.append_nil]
  obtain ⟨first, others, same⟩ := List.exists_cons_of_ne_nil nonempty
  have digit : isHexChar first := allDigits first (by rw [same]; exact List.mem_cons_self)
  have notSpace : ¬ isSpace first := by
    rw [isHexChar_iff] at digit
    rw [isSpace_iff]
    omega
  have notSign : first ≠ chr '-' ∧ first ≠ chr '+' := by
    constructor <;>
      · rintro rfl
        exact absurd digit (by decide)
  have trimmed : (digits ++ next :: rest).dropWhile isSpace = digits ++ next :: rest := by
    rw [same, List.cons_append, List.dropWhile_cons_of_neg notSpace]
  have head : (digits ++ next :: rest).head? = some first := by rw [same]; rfl
  have minus : (some first == some (chr '-')) = false := by simp [notSign.1]
  have plus : (some first == some (chr '+')) = false := by simp [notSign.2]
  unfold stoi16
  simp only [trimmed, head, minus, plus, Bool.or_self, Bool.false_eq_true, if_false,
    dropHexPrefix_digits allDigits plain nonempty, taken, nonempty]
  by_cases small : hexValue digits < 2 ^ 31
  · rw [if_pos (by omega), if_pos small]
  · rw [if_neg (by omega), if_neg small]

end Sheep
