/-
This file states what both message parsers read as header lines. They agree on
the shape of a line; which bytes may stand in it is up to each of them.
-/

import Sheep.Bytes

namespace Sheep

/-- A header line: a name, a colon, an optional space, a value, and the line end. -/
structure HeaderLine where
  name : List Byte
  spaced : Bool
  value : List Byte
deriving DecidableEq, Repr

/-- What separates a name from a value. -/
def colonText (spaced : Bool) : List Byte := chr ':' :: if spaced then [SP] else []

namespace HeaderLine

def bytes (line : HeaderLine) : List Byte :=
  line.name ++ (colonText line.spaced ++ (line.value ++ crlf))

end HeaderLine

/-- The header lines of a section, without the empty line that ends it. -/
def headerBytes (lines : List HeaderLine) : List Byte := lines.flatMap HeaderLine.bytes

theorem headerBytes_cons (header : HeaderLine) (lines : List HeaderLine) :
    headerBytes (header :: lines) = header.bytes ++ headerBytes lines := rfl

theorem headerBytes_snoc (lines : List HeaderLine) (header : HeaderLine) :
    headerBytes (lines ++ [header]) = headerBytes lines ++ header.bytes := by
  simp [headerBytes]

end Sheep
