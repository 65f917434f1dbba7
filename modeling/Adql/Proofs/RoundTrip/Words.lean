import Adql.Token.Lexeme
import Adql.Token.Value
import Adql.Tree.Printer

/-!
# The words of trees

A word is what the rules see of a token: its kind and its text.  `Query.words` lists the words of a
query as the printer puts them down, either with the parentheses that the printer adds for the sake
of precedence or without them.  `Query.addedParentheses` counts the places where it adds them: if
there are none, both lists are the same (`Query.adds`).
-/

namespace Adql

open Adql.Text Adql.Decimal

/-- What the rules see of a token. -/
structure Word where
  /-- The kind of the token. -/
  kind : TokenKind
  /-- The text of the token. -/
  lexeme : String
  deriving DecidableEq

/-- What the rules see of the token. -/
def Token.word (token : Token) : Word :=
  ⟨token.kind, token.lexeme⟩

/-- A token of the word, wherever it stands. -/
def Word.token (word : Word) : Token :=
  ⟨word.kind, word.lexeme, ⟨0, 0⟩, 0, 0⟩

/-- A token of a word is seen as the word. -/
@[simp] theorem Word.word_token (word : Word) : word.token.word = word := rfl

/-- A token of a word has the kind of the word. -/
theorem Word.kind_token (word : Word) : word.token.kind = word.kind := rfl

/-- The word of an end marker. -/
def endWord : Word :=
  ⟨.eof, ""⟩

/-! ### Single words -/

/-- The text of a kind whose tokens all have one text, reserved words in upper case. -/
def TokenKind.spelling : TokenKind → String
  | .keyword word => word.spelling
  | .plus => "+"
  | .minus => "-"
  | .star => "*"
  | .slash => "/"
  | .percent => "%"
  | .eq => "="
  | .notEq => "<>"
  | .lt => "<"
  | .ltEq => "<="
  | .gt => ">"
  | .gtEq => ">="
  | .concat => "||"
  | .bitAnd => "&"
  | .bitOr => "|"
  | .bitXor => "^"
  | .bitNot => "~"
  | .leftParen => "("
  | .rightParen => ")"
  | .comma => ","
  | .dot => "."
  | .semicolon => ";"
  | .identifier | .delimitedIdentifier | .integer | .real | .string | .eof => ""

/-- The word of a kind whose tokens all have one text. -/
def TokenKind.word (kind : TokenKind) : Word :=
  ⟨kind, kind.spelling⟩

/-- The word of a reserved word. -/
def Keyword.word (keyword : Keyword) : Word :=
  (TokenKind.keyword keyword).word

/-- The kind of the token that denotes a prefix operator. -/
def UnaryOp.token : UnaryOp → TokenKind
  | .not => .keyword .NOT
  | .neg => .minus
  | .plus => .plus
  | .bitNot => .bitNot

/-- The word of a name; a regular name may spell a reserved word. -/
def Identifier.word (identifier : Identifier) : Word :=
  if identifier.quoted then ⟨.delimitedIdentifier, identifier.text⟩
  else
    match Keyword.ofWord? identifier.value with
    | some keyword => ⟨.keyword keyword, identifier.value⟩
    | none => ⟨.identifier, identifier.value⟩

/-- The word of a number of rows or of a length. -/
def countWord (count : Nat) : Word :=
  ⟨.integer, count.repr⟩

/-- The word of a literal that is not negative. -/
def Literal.word : Literal → Word
  | .integer value => ⟨.integer, value.toInt.repr⟩
  | .real value => ⟨.real, Layout.query.text value⟩
  | .string value => ⟨.string, quoted '\'' value⟩
  | .boolean value => if value then Keyword.TRUE.word else Keyword.FALSE.word
  | .null => Keyword.NULL.word

/-- The word of a literal without its sign. -/
def Literal.unsignedWord : Literal → Word
  | .integer value => countWord value.toInt.natAbs
  | .real value => ⟨.real, Layout.query.text (-value)⟩
  | other => other.word

/-- The words of a literal: the sign of a negative one is a word of its own. -/
def Literal.words (value : Literal) : List Word :=
  if value.isNegative then [TokenKind.minus.word, value.unsignedWord] else [value.word]

/-- Is the text a word that is not reserved? -/
def IsName (text : String) : Prop :=
  ∃ first rest, text.toList = first :: rest ∧ startsWord first = true ∧
    rest.all continuesWord = true ∧ Keyword.ofWord? text = none

instance (text : String) : Decidable (IsName text) :=
  match written : text.toList with
  | [] => .isFalse fun ⟨_, _, same, _⟩ => List.cons_ne_nil _ _ (same.symm.trans written)
  | first :: rest =>
    decidable_of_iff
      (startsWord first = true ∧ rest.all continuesWord = true ∧ Keyword.ofWord? text = none)
      ⟨fun h => ⟨first, rest, written, h⟩, fun ⟨_, _, same, h⟩ =>
        (List.cons.inj (written.symm.trans same)).1 ▸ (List.cons.inj (written.symm.trans same)).2 ▸ h⟩

/-- A small letter alone is a name: no reserved word is that short. -/
theorem isName_letter : ∀ name ∈ ["a", "b", "c", "d", "e", "f", "g", "h", "i", "j", "k", "l", "m",
    "n", "o", "p", "q", "r", "s", "t", "u", "v", "w", "x", "y", "z"], IsName name := by
  decide +kernel

/-- Is the word written as the printer writes words? -/
def Word.Spelled (word : Word) : Prop :=
  match word.kind with
  | .identifier => IsName word.lexeme
  | .delimitedIdentifier => ∃ name, name ≠ "" ∧ word.lexeme = quoted '"' name
  | .integer => ∃ value, value ≤ maxInteger ∧ word.lexeme = value.repr
  | .real => ∃ value : Double, value.isNegative = false ∧ value.isFinite = true ∧
      word.lexeme = Layout.query.text value ∧ readReal? word.lexeme = some value
  | .string => ∃ value, word.lexeme = quoted '\'' value
  | .eof => False
  | kind => word.lexeme = kind.spelling

/-- Can the word be read where it stands?  A name may spell a reserved word in other letters than the
printer does. -/
def Word.Legible (word : Word) : Prop :=
  word.Spelled ∨ ∃ keyword, word.kind = .keyword keyword ∧ Keyword.ofWord? word.lexeme = some keyword

/-- What is written as the printer writes words can be read. -/
theorem Word.Spelled.legible {word : Word} (spelled : word.Spelled) : word.Legible :=
  .inl spelled

/-- What the word stands for is written as a word that stands for the same. -/
structure Word.Sound (word : Word) : Prop where
  /-- The word is no end marker. -/
  kind_ne : word.kind ≠ .eof
  /-- A name is written as a word for the name. -/
  name : ∀ name, word.token.identifier? = some name →
    name.word.Spelled ∧ name.word.token.identifier? = some name
  /-- A literal is written as a word for the literal. -/
  literal : ∀ value, word.token.literal? = some value →
    value.word.Spelled ∧ value.word.token.literal? = some value

/-! ### Rows of words -/

/-- Rows of words with a separator between neighbours. -/
def separated (separator : TokenKind) : List (List Word) → List Word
  | [] => []
  | [words] => words
  | words :: next :: rest => words ++ separator.word :: separated separator (next :: rest)

/-- Words in parentheses. -/
def enclosed (words : List Word) : List Word :=
  TokenKind.leftParen.word :: (words ++ [TokenKind.rightParen.word])

/-- Words in parentheses if need be. -/
def enclosedIf (needed : Bool) (words : List Word) : List Word :=
  if needed then enclosed words else words

/-- Words behind a reserved word, or nothing. -/
def clauseWords (keyword : Keyword) : Option (List Word) → List Word
  | none => []
  | some words => keyword.word :: words

/-- Rows of words behind other words, or nothing if there are none. -/
def listClauseWords (front : List Word) : List (List Word) → List Word
  | [] => []
  | words :: rest => front ++ separated .comma (words :: rest)

/-- A word that is there or not. -/
def wordIf (keyword : Keyword) (present : Bool) : List Word :=
  if present then [keyword.word] else []

/-- The words of qualifying names, each with its point. -/
def qualifierWords : List Identifier → List Word
  | [] => []
  | part :: rest => part.word :: TokenKind.dot.word :: qualifierWords rest

/-- The words of a qualified name. -/
def QualifiedName.words (name : QualifiedName) : List Word :=
  qualifierWords name.qualifier ++ [name.name.word]

/-- The words of a data type with its length, if it has one. -/
def lengthWords (keyword : Keyword) : Option UInt32 → List Word
  | none => [keyword.word]
  | some length => keyword.word :: enclosed [countWord length.toNat]

/-- The words of a data type. -/
def DataType.words : DataType → List Word
  | .smallint => [Keyword.SMALLINT.word]
  | .integer => [Keyword.INTEGER.word]
  | .bigint => [Keyword.BIGINT.word]
  | .real => [Keyword.REAL.word]
  | .double => [Keyword.DOUBLE.word, Keyword.PRECISION.word]
  | .char length => lengthWords .CHAR length
  | .varchar length => lengthWords .VARCHAR length
  | .timestamp => [Keyword.TIMESTAMP.word]
  | .point => [⟨.identifier, "POINT"⟩]
  | .circle => [⟨.identifier, "CIRCLE"⟩]
  | .polygon => [⟨.identifier, "POLYGON"⟩]

/-- The words of the number of rows to skip. -/
def offsetWords (offset : Option UInt64) : List Word :=
  clauseWords .OFFSET (offset.map fun count => [countWord count.toNat])

/-- The words of a name given to a table or a select item. -/
def aliasWords (alias? : Option Identifier) : List Word :=
  clauseWords .AS (alias?.map fun name => [name.word])

/-- The words of a join up to and with `JOIN`. -/
def JoinKind.words : JoinKind → List Word
  | .inner => [Keyword.JOIN.word]
  | .left => [Keyword.LEFT.word, Keyword.OUTER.word, Keyword.JOIN.word]
  | .right => [Keyword.RIGHT.word, Keyword.OUTER.word, Keyword.JOIN.word]
  | .full => [Keyword.FULL.word, Keyword.OUTER.word, Keyword.JOIN.word]
  | .cross => [Keyword.CROSS.word, Keyword.JOIN.word]

/-- The reserved word of a set operator. -/
def SetOperator.keyword : SetOperator → Keyword
  | .union => .UNION
  | .except => .EXCEPT
  | .intersect => .INTERSECT

/-- The reserved words of a pattern match. -/
def likeKeyword (caseInsensitive : Bool) : Keyword :=
  if caseInsensitive then .ILIKE else .LIKE

/-- Is a right operand put in parentheses where only what binds at a level or tighter may stand? -/
def Expr.looserRight (operand : Expr) (minLevel : Nat) : Bool :=
  operand.looserThan minLevel && !operand.isUnary

/-! ### Trees -/

section

variable (added : Bool)

mutual

/-- The words of an expression, with or without the added parentheses. -/
def Expr.words : Expr → List Word
  | .literal value => value.words
  | .column name => name.words
  | .wildcard qualifier => qualifierWords qualifier ++ [TokenKind.star.word]
  | .binary left op right =>
    enclosedIf (added && left.looserThan (PrecedenceTable.adql.binaryLevel op)) left.words ++
      op.token.word ::
        enclosedIf (added && right.looserRight (PrecedenceTable.adql.rightLevel op)) right.words
  | .unary op operand =>
    op.token.word ::
      enclosedIf (added && operand.looserRight (PrecedenceTable.adql.prefixLevel op)) operand.words
  | .call name arguments distinct =>
    name.word ::
      enclosed (wordIf .DISTINCT distinct ++ separated .comma (Expr.wordsList arguments))
  | .geometry function arguments =>
    ⟨.identifier, function.spelling⟩ :: enclosed (separated .comma (Expr.wordsList arguments))
  | .isNull operand negated =>
    enclosedIf (added && operand.looserThan predicateLevel) operand.words ++
      Keyword.IS.word :: (wordIf .NOT negated ++ [Keyword.NULL.word])
  | .between operand low high negated =>
    enclosedIf (added && operand.looserThan predicateLevel) operand.words ++
      (wordIf .NOT negated ++ Keyword.BETWEEN.word ::
        (enclosedIf (added && low.looserThan (predicateLevel + 1)) low.words ++
          Keyword.AND.word ::
            enclosedIf (added && high.looserThan (predicateLevel + 1)) high.words))
  | .inList operand items negated =>
    enclosedIf (added && operand.looserThan predicateLevel) operand.words ++
      (wordIf .NOT negated ++ Keyword.IN.word ::
        enclosed (separated .comma (Expr.wordsList items)))
  | .inQuery operand query negated =>
    enclosedIf (added && operand.looserThan predicateLevel) operand.words ++
      (wordIf .NOT negated ++ Keyword.IN.word :: enclosed query.words)
  | .like operand pattern escape negated caseInsensitive =>
    enclosedIf (added && operand.looserThan predicateLevel) operand.words ++
      (wordIf .NOT negated ++ (likeKeyword caseInsensitive).word ::
        (enclosedIf (added && pattern.looserThan (predicateLevel + 1)) pattern.words ++
          Expr.escapeWords escape))
  | .exists query => Keyword.EXISTS.word :: enclosed query.words
  | .subquery query => enclosed query.words
  | .case subject branches otherwise =>
    Keyword.CASE.word :: ((Expr.wordsOption subject).getD [] ++
      (Branch.wordsList branches ++
        (clauseWords .ELSE (Expr.wordsOption otherwise) ++ [Keyword.END.word])))
  | .cast operand target =>
    Keyword.CAST.word :: enclosed (operand.words ++ Keyword.AS.word :: target.words)
  | .paren inner => enclosed inner.words

/-- The rows of words of expressions. -/
def Expr.wordsList : List Expr → List (List Word)
  | [] => []
  | expr :: rest => expr.words :: Expr.wordsList rest

/-- The words of an expression that may be missing. -/
def Expr.wordsOption : Option Expr → Option (List Word)
  | none => none
  | some expr => some expr.words

/-- The words of the escape clause of a pattern. -/
def Expr.escapeWords : Option Expr → List Word
  | none => []
  | some escape =>
    Keyword.ESCAPE.word :: enclosedIf (added && escape.looserThan (predicateLevel + 1)) escape.words

/-- The words of the branches of a case distinction. -/
def Branch.wordsList : List Branch → List Word
  | [] => []
  | branch :: rest => branch.words ++ Branch.wordsList rest

/-- The words of a branch of a case distinction. -/
def Branch.words : Branch → List Word
  | ⟨condition, result⟩ =>
    Keyword.WHEN.word :: (condition.words ++ Keyword.THEN.word :: result.words)

/-- The words of a sort key. -/
def SortKey.words : SortKey → List Word
  | ⟨expr, direction⟩ => expr.words ++ wordIf .DESC (direction = .descending)

/-- The rows of words of sort keys. -/
def SortKey.wordsList : List SortKey → List (List Word)
  | [] => []
  | key :: rest => key.words :: SortKey.wordsList rest

/-- The words of a select item. -/
def SelectItem.words : SelectItem → List Word
  | ⟨expr, alias?⟩ => expr.words ++ aliasWords alias?

/-- The rows of words of select items. -/
def SelectItem.wordsList : List SelectItem → List (List Word)
  | [] => []
  | item :: rest => item.words :: SelectItem.wordsList rest

/-- The words of what matches the rows of a join. -/
def JoinConstraint.words : JoinConstraint → List Word
  | .on condition => Keyword.ON.word :: condition.words
  | .using columns =>
    Keyword.USING.word :: enclosed (separated .comma (columns.map fun column => [column.word]))
  | .none => []

/-- The words of a table. -/
def TableRef.words : TableRef → List Word
  | .table name alias? => name.words ++ aliasWords alias?
  | .subquery query name => enclosed query.words ++ [Keyword.AS.word, name.word]
  | .join left kind natural right constraint =>
    left.words ++ (wordIf .NATURAL natural ++ (kind.words ++
      (enclosedIf (added && right.isJoin) right.words ++ constraint.words)))
  | .nested inner => enclosed inner.words

/-- The rows of words of tables. -/
def TableRef.wordsList : List TableRef → List (List Word)
  | [] => []
  | table :: rest => table.words :: TableRef.wordsList rest

/-- The words of a specification. -/
def QuerySpec.words : QuerySpec → List Word
  | ⟨distinct, top, items, tables, condition, groups, having, keys, offset⟩ =>
    Keyword.SELECT.word :: (wordIf .DISTINCT distinct ++
      (clauseWords .TOP (top.map fun count => [countWord count.toNat]) ++
        (separated .comma (SelectItem.wordsList items) ++ Keyword.FROM.word ::
          (separated .comma (TableRef.wordsList tables) ++
            (clauseWords .WHERE (Expr.wordsOption condition) ++
              (listClauseWords [Keyword.GROUP.word, Keyword.BY.word] (Expr.wordsList groups) ++
                (clauseWords .HAVING (Expr.wordsOption having) ++
                  (listClauseWords [Keyword.ORDER.word, Keyword.BY.word]
                      (SortKey.wordsList keys) ++
                    offsetWords offset))))))))

/-- The words of a query body. -/
def QueryBody.words : QueryBody → List Word
  | .spec spec => spec.words
  | .setOperation op all left right =>
    enclosedIf (added && left.looserThan op.level) left.words ++ op.keyword.word ::
      (wordIf .ALL all ++ enclosedIf (added && right.looserThan (op.level + 1)) right.words)
  | .nested query => enclosed query.words

/-- The words of a named query. -/
def CommonTable.words : CommonTable → List Word
  | ⟨name, columns, query⟩ =>
    name.word :: ((if columns.isEmpty then []
      else enclosed (separated .comma (columns.map fun column => [column.word]))) ++
        Keyword.AS.word :: enclosed query.words)

/-- The rows of words of named queries. -/
def CommonTable.wordsList : List CommonTable → List (List Word)
  | [] => []
  | table :: rest => table.words :: CommonTable.wordsList rest

/-- The words of a query. -/
def Query.words : Query → List Word
  | ⟨commonTables, body, keys, offset⟩ =>
    listClauseWords [Keyword.WITH.word] (CommonTable.wordsList commonTables) ++
      (body.words ++
        (listClauseWords [Keyword.ORDER.word, Keyword.BY.word] (SortKey.wordsList keys) ++
          offsetWords offset))

end

/-- The rows of words of expressions, one for each. -/
theorem Expr.wordsList_eq_map (exprs : List Expr) :
    Expr.wordsList added exprs = exprs.map (Expr.words added) := by
  induction exprs with
  | nil => rfl
  | cons expr rest ih => rw [Expr.wordsList, ih, List.map_cons]

/-- A name that spells a reserved word is written as the reserved word. -/
theorem Keyword.word_regular (keyword : Keyword) :
    (Identifier.regular keyword.spelling).word = keyword.word := by
  rw [Identifier.word, if_neg (by simp [Identifier.regular])]
  simp only [Identifier.regular, ofWord?_spelling]
  rfl

/-- The words of a call of an aggregate function. -/
theorem Expr.words_aggregate (keyword : Keyword) (argument : Expr) (distinct : Bool) :
    Expr.words added (.call (.regular keyword.spelling) [argument] distinct) =
      keyword.word :: enclosed (wordIf .DISTINCT distinct ++ argument.words added) := by
  rw [Expr.words, keyword.word_regular]
  rfl

end

/-! ### Added parentheses -/

mutual

/-- The number of operands and parts in an expression that the printer puts in parentheses. -/
def Expr.addedParentheses : Expr → Nat
  | .literal _ | .column _ | .wildcard _ => 0
  | .binary left op right =>
    left.addedParentheses + (left.looserThan (PrecedenceTable.adql.binaryLevel op)).toNat +
      (right.addedParentheses + (right.looserRight (PrecedenceTable.adql.rightLevel op)).toNat)
  | .unary op operand =>
    operand.addedParentheses + (operand.looserRight (PrecedenceTable.adql.prefixLevel op)).toNat
  | .call _ arguments _ | .geometry _ arguments => Expr.addedList arguments
  | .isNull operand _ =>
    operand.addedParentheses + (operand.looserThan predicateLevel).toNat
  | .between operand low high _ =>
    operand.addedParentheses + (operand.looserThan predicateLevel).toNat +
      (low.addedParentheses + (low.looserThan (predicateLevel + 1)).toNat +
        (high.addedParentheses + (high.looserThan (predicateLevel + 1)).toNat))
  | .inList operand items _ =>
    operand.addedParentheses + (operand.looserThan predicateLevel).toNat + Expr.addedList items
  | .inQuery operand query _ =>
    operand.addedParentheses + (operand.looserThan predicateLevel).toNat + query.addedParentheses
  | .like operand pattern escape _ _ =>
    operand.addedParentheses + (operand.looserThan predicateLevel).toNat +
      (pattern.addedParentheses + (pattern.looserThan (predicateLevel + 1)).toNat +
        Expr.addedEscape escape)
  | .exists query | .subquery query => query.addedParentheses
  | .case subject branches otherwise =>
    Expr.addedOption subject + (Branch.addedList branches + Expr.addedOption otherwise)
  | .cast operand _ => operand.addedParentheses
  | .paren inner => inner.addedParentheses

/-- The number of added parentheses in expressions. -/
def Expr.addedList : List Expr → Nat
  | [] => 0
  | expr :: rest => expr.addedParentheses + Expr.addedList rest

/-- The number of added parentheses in an expression that may be missing. -/
def Expr.addedOption : Option Expr → Nat
  | none => 0
  | some expr => expr.addedParentheses

/-- The number of added parentheses in an escape clause. -/
def Expr.addedEscape : Option Expr → Nat
  | none => 0
  | some escape => escape.addedParentheses + (escape.looserThan (predicateLevel + 1)).toNat

/-- The number of added parentheses in the branches of a case distinction. -/
def Branch.addedList : List Branch → Nat
  | [] => 0
  | branch :: rest => branch.addedParentheses + Branch.addedList rest

/-- The number of added parentheses in a branch of a case distinction. -/
def Branch.addedParentheses : Branch → Nat
  | ⟨condition, result⟩ => condition.addedParentheses + result.addedParentheses

/-- The number of added parentheses in a sort key. -/
def SortKey.addedParentheses : SortKey → Nat
  | ⟨expr, _⟩ => expr.addedParentheses

/-- The number of added parentheses in sort keys. -/
def SortKey.addedList : List SortKey → Nat
  | [] => 0
  | key :: rest => key.addedParentheses + SortKey.addedList rest

/-- The number of added parentheses in a select item. -/
def SelectItem.addedParentheses : SelectItem → Nat
  | ⟨expr, _⟩ => expr.addedParentheses

/-- The number of added parentheses in select items. -/
def SelectItem.addedList : List SelectItem → Nat
  | [] => 0
  | item :: rest => item.addedParentheses + SelectItem.addedList rest

/-- The number of added parentheses in what matches the rows of a join. -/
def JoinConstraint.addedParentheses : JoinConstraint → Nat
  | .on condition => condition.addedParentheses
  | .using _ | .none => 0

/-- The number of added parentheses in a table. -/
def TableRef.addedParentheses : TableRef → Nat
  | .table _ _ => 0
  | .subquery query _ => query.addedParentheses
  | .join left _ _ right constraint =>
    left.addedParentheses +
      (right.addedParentheses + right.isJoin.toNat + constraint.addedParentheses)
  | .nested inner => inner.addedParentheses

/-- The number of added parentheses in tables. -/
def TableRef.addedList : List TableRef → Nat
  | [] => 0
  | table :: rest => table.addedParentheses + TableRef.addedList rest

/-- The number of added parentheses in a specification. -/
def QuerySpec.addedParentheses : QuerySpec → Nat
  | ⟨_, _, items, tables, condition, groups, having, keys, _⟩ =>
    SelectItem.addedList items + (TableRef.addedList tables + (Expr.addedOption condition +
      (Expr.addedList groups + (Expr.addedOption having + SortKey.addedList keys))))

/-- The number of added parentheses in a query body. -/
def QueryBody.addedParentheses : QueryBody → Nat
  | .spec spec => spec.addedParentheses
  | .setOperation op _ left right =>
    left.addedParentheses + (left.looserThan op.level).toNat +
      (right.addedParentheses + (right.looserThan (op.level + 1)).toNat)
  | .nested query => query.addedParentheses

/-- The number of added parentheses in a named query. -/
def CommonTable.addedParentheses : CommonTable → Nat
  | ⟨_, _, query⟩ => query.addedParentheses

/-- The number of added parentheses in named queries. -/
def CommonTable.addedList : List CommonTable → Nat
  | [] => 0
  | table :: rest => table.addedParentheses + CommonTable.addedList rest

/-- The number of places in a query where the printer adds parentheses. -/
def Query.addedParentheses : Query → Nat
  | ⟨commonTables, body, keys, _⟩ =>
    CommonTable.addedList commonTables + (body.addedParentheses + SortKey.addedList keys)

end

end Adql
