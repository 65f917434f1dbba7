/-!
# Places in a text

A position counts lines and columns from zero; columns count characters, and only the newline
character starts a line.  Offsets count bytes of UTF-8, so a span is a range of bytes.
-/

namespace Adql

/-- A point in a text. -/
structure Position where
  /-- The number of bytes before the point. -/
  offset : Nat
  /-- The number of newlines before the point. -/
  line : Nat
  /-- The number of characters between the last newline and the point. -/
  column : Nat
  deriving DecidableEq

/-- A range of bytes in a text, the end excluded. -/
structure Span where
  /-- The offset of the first byte. -/
  start : Nat
  /-- The offset behind the last byte. -/
  stop : Nat
  deriving DecidableEq

namespace Position

/-- The position in front of the text. -/
def origin : Position := ⟨0, 0, 0⟩

/-- The position behind a character that starts at the given position. -/
def after (start : Position) (c : Char) : Position :=
  if c = '\n' then ⟨start.offset + c.utf8Size, start.line + 1, 0⟩
  else ⟨start.offset + c.utf8Size, start.line, start.column + 1⟩

/-- The position behind a run of characters that starts at the given position. -/
def advance (start : Position) (text : List Char) : Position :=
  text.foldl after start

/-- Diagnostics name a position by its line and column. -/
def label (start : Position) : String :=
  s!"{start.line}:{start.column}"

/-- Behind no characters, the position is the one in front of them. -/
@[simp] theorem advance_nil (start : Position) : start.advance [] = start := rfl

/-- A run of characters is advanced over one at a time. -/
@[simp] theorem advance_cons (start : Position) (c : Char) (text : List Char) :
    start.advance (c :: text) = (start.after c).advance text := rfl

/-- Advancing over two runs is advancing over the first and then over the second. -/
@[simp] theorem advance_append (start : Position) (first second : List Char) :
    start.advance (first ++ second) = (start.advance first).advance second := by
  simp [advance]

end Position

end Adql
