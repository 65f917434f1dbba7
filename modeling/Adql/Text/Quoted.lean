/-!
# Quoted text

Text between two quotes, in which a quote that belongs to the text is written twice.  String
literals use the single quote and delimited identifiers the double quote.

`collapse_double` and `unquoted_quoted` say that reading a written text gives the text back.
-/

namespace Adql.Text

/-- Each quote in the text is written twice. -/
def double (quote : Char) : List Char → List Char
  | [] => []
  | c :: rest => if c = quote then quote :: quote :: double quote rest else c :: double quote rest

/-- Two quotes side by side stand for one. -/
def collapse (quote : Char) : List Char → List Char
  | [] => []
  | [c] => [c]
  | c :: d :: rest =>
    if c = quote ∧ d = quote then quote :: collapse quote rest
    else c :: collapse quote (d :: rest)

/-- The text without one quote in front. -/
def stripFront (quote : Char) : List Char → List Char
  | [] => []
  | c :: rest => if c = quote then rest else c :: rest

/-- The text without one quote at its end. -/
def stripBack (quote : Char) (text : List Char) : List Char :=
  (stripFront quote text.reverse).reverse

/-- The text between quotes, with its own quotes doubled. -/
def quoted (quote : Char) (text : String) : String :=
  String.ofList (quote :: double quote text.toList ++ [quote])

/-- The text that a quoted form stands for; a missing quote at either end is tolerated. -/
def unquoted (quote : Char) (text : String) : String :=
  String.ofList (collapse quote (stripBack quote (stripFront quote text.toList)))

/-- There is nothing to double in the empty text. -/
@[simp] theorem double_nil (quote : Char) : double quote [] = [] := rfl

/-- There is nothing to collapse in the empty text. -/
@[simp] theorem collapse_nil (quote : Char) : collapse quote [] = [] := rfl

/-- Reading a written text gives the text back. -/
@[simp] theorem collapse_double (quote : Char) (text : List Char) :
    collapse quote (double quote text) = text := by
  induction text with
  | nil => rfl
  | cons c rest ih =>
    by_cases hc : c = quote
    · simp [double, hc, collapse, ih]
    · simp only [double, if_neg hc]
      cases hrest : double quote rest with
      | nil =>
        rw [hrest, collapse_nil] at ih
        simp [collapse, ← ih]
      | cons d tail =>
        rw [hrest] at ih
        simp [collapse, hc, ih]

/-- A quote in front is taken away. -/
@[simp] theorem stripFront_cons (quote : Char) (text : List Char) :
    stripFront quote (quote :: text) = text := by
  simp [stripFront]

/-- A quote at the end is taken away. -/
@[simp] theorem stripBack_append (quote : Char) (text : List Char) :
    stripBack quote (text ++ [quote]) = text := by
  simp [stripBack]

/-- Unquoting undoes quoting. -/
@[simp] theorem unquoted_quoted (quote : Char) (text : String) :
    unquoted quote (quoted quote text) = text := by
  simp [unquoted, quoted]

end Adql.Text
