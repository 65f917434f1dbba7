import Adql.Token

/-!
# A cursor over tokens

A cursor stands at a token of a sequence that ends with an end marker.  It looks ahead any number
of tokens (past the end there is only the end marker), moves forward one token at a time without
ever passing the end marker, and goes back to any position it has been at.
-/

namespace Adql

/-- A position in a sequence of tokens that ends with an end marker. -/
structure TokenCursor where
  /-- The tokens in front of the end marker. -/
  tokens : Array Token
  /-- The end marker. -/
  final : Token
  /-- The number of tokens in front of the cursor. -/
  position : Nat

namespace TokenCursor

/-- The end marker that belongs behind a token: the place behind its text, on its line. -/
def endBehind : Option Token → Token
  | none => .endAt .origin
  | some last => .endAt ⟨last.span.stop, last.line, last.column + last.lexeme.length⟩

/-- A cursor at the first of the given tokens; an end marker is added if there is none. -/
def ofTokens (tokens : List Token) : TokenCursor :=
  match tokens.getLast? with
  | some last =>
    if last.isEnd then ⟨tokens.dropLast.toArray, last, 0⟩
    else ⟨tokens.toArray, endBehind (some last), 0⟩
  | none => ⟨#[], endBehind none, 0⟩

/-- The token at a position; behind the end there is only the end marker. -/
def tokenAt (cursor : TokenCursor) (position : Nat) : Token :=
  cursor.tokens[position]?.getD cursor.final

/-- The token so many places ahead. -/
def peek (cursor : TokenCursor) (ahead : Nat) : Token :=
  cursor.tokenAt (cursor.position + ahead)

/-- The current token. -/
def current (cursor : TokenCursor) : Token :=
  cursor.tokenAt cursor.position

/-- Moves behind the current token; the end marker is never passed. -/
def advance (cursor : TokenCursor) : TokenCursor :=
  if cursor.position < cursor.tokens.size then { cursor with position := cursor.position + 1 }
  else cursor

/-- Goes back to a position. -/
def moveTo (cursor : TokenCursor) (position : Nat) : TokenCursor :=
  { cursor with position }

/-- Is the current token an end marker? -/
def atEnd (cursor : TokenCursor) : Bool :=
  cursor.current.isEnd

/-- The number of tokens, the end marker included. -/
def size (cursor : TokenCursor) : Nat :=
  cursor.tokens.size + 1

/-- The number of tokens between the cursor and the final end marker. -/
def remaining (cursor : TokenCursor) : Nat :=
  cursor.tokens.size - cursor.position

/-- A cursor starts in front of the first token. -/
@[simp] theorem position_ofTokens (tokens : List Token) : (ofTokens tokens).position = 0 := by
  unfold ofTokens
  split
  · split <;> rfl
  · rfl

/-- No places ahead, there is the current token. -/
@[simp] theorem peek_zero (cursor : TokenCursor) : cursor.peek 0 = cursor.current := rfl

/-- The cursor never goes back when it advances. -/
theorem position_le_advance (cursor : TokenCursor) : cursor.position ≤ cursor.advance.position := by
  unfold advance
  split <;> simp

/-- In front of the final end marker, advancing leaves one token less. -/
theorem remaining_advance (cursor : TokenCursor) :
    cursor.advance.remaining = cursor.remaining - 1 := by
  unfold advance remaining
  split
  · simp only
    omega
  · omega

end TokenCursor

end Adql
