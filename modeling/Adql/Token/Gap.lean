import Adql.Position
import Adql.Text.Blank

/-!
# Gaps between tokens

What may stand between two tokens: blanks, line comments, which begin with two minus signs and end
with the line, and block comments, which do not nest.  `skipGap` finds the end of a gap, or the
block comment that is never closed.
-/

namespace Adql

open Adql.Text

/-- Where in a gap the reader is. -/
inductive GapMode
  | between
  | lineComment
  | blockComment (opening : Position)

/-- What follows a gap. -/
structure Gap where
  /-- The place behind the gap. -/
  place : Position
  /-- The text behind the gap. -/
  rest : List Char
  /-- The place of a block comment that is never closed. -/
  unclosed : Option Position

/-- Skips blanks and comments. -/
def skipGap : GapMode → Position → List Char → Gap
  | .between, place, [] => ⟨place, [], none⟩
  | .between, place, '-' :: '-' :: rest =>
    skipGap .lineComment (place.advance ['-', '-']) rest
  | .between, place, '/' :: '*' :: rest =>
    skipGap (.blockComment place) (place.advance ['/', '*']) rest
  | .between, place, c :: rest =>
    if isBlank c then skipGap .between (place.after c) rest else ⟨place, c :: rest, none⟩
  | .lineComment, place, [] => ⟨place, [], none⟩
  | .lineComment, place, c :: rest =>
    if c = '\n' then skipGap .between (place.after c) rest
    else skipGap .lineComment (place.after c) rest
  | .blockComment opening, place, [] => ⟨place, [], some opening⟩
  | .blockComment _, place, '*' :: '/' :: rest =>
    skipGap .between (place.advance ['*', '/']) rest
  | .blockComment opening, place, c :: rest =>
    skipGap (.blockComment opening) (place.after c) rest

/-- A gap never makes the text longer. -/
theorem length_skipGap_le (mode : GapMode) (place : Position) (text : List Char) :
    (skipGap mode place text).rest.length ≤ text.length := by
  fun_induction skipGap mode place text <;> simp_all <;> omega

end Adql
