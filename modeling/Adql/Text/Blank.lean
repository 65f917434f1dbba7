import Adql.Text.RangeTable

/-!
# Blank characters

The white space between words: the characters with the Unicode property `White_Space`, which
holds more than the blanks of ASCII (the no-break space, the typographic spaces, the next-line
control and the two separators of lines and paragraphs).
-/

namespace Adql.Text

/-- The ranges of the Unicode property `White_Space`. -/
def blankRanges : RangeTable := [
  (0x9, 0xD), (0x20, 0x20), (0x85, 0x85), (0xA0, 0xA0), (0x1680, 0x1680), (0x2000, 0x200A),
  (0x2028, 0x2029), (0x202F, 0x202F), (0x205F, 0x205F), (0x3000, 0x3000)]

/-- Does the character count as white space between words? -/
def isBlank (c : Char) : Bool :=
  blankRanges.covers c.toNat

/-- Text without the blanks at its two ends. -/
def trimBlanks (text : String) : String :=
  let front := text.toList.dropWhile isBlank
  String.ofList (front.reverse.dropWhile isBlank).reverse

/-- The blanks of ASCII are blank. -/
theorem isBlank_of_isWhitespace {c : Char} (h : c.isWhitespace = true) : isBlank c = true := by
  simp only [Char.isWhitespace, Bool.or_eq_true, decide_eq_true_eq] at h
  rcases h with ((h | h) | h) | h <;> subst h <;> decide

end Adql.Text
