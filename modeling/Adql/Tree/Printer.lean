import Adql.Decimal.Layout
import Adql.Operator.Precedence
import Adql.Text.Quoted
import Adql.Tree

/-!
# Printing trees

The text of a tree on one line.  Parentheses are added only where the precedence of the language
asks for them: an operand is put in parentheses when it binds looser than its place allows.  A
prefix operator absorbs what follows it, so on the right of an operator it stands without
parentheses, and so does a prefix operator below another one.
-/

namespace Adql

open Adql.Text Adql.Decimal

/-- Texts with a comma and a space between neighbours. -/
def commaSeparated : List String → String
  | [] => ""
  | [text] => text
  | text :: next :: rest => text ++ ", " ++ commaSeparated (next :: rest)

/-- Text in parentheses. -/
def parenthesized (text : String) : String :=
  "(" ++ text ++ ")"

/-- Text in parentheses if need be. -/
def parenthesizedIf (needed : Bool) (text : String) : String :=
  if needed then parenthesized text else text

/-! ### Names and literals -/

/-- The text of a name. -/
def Identifier.text (identifier : Identifier) : String :=
  if identifier.quoted then Text.quoted '"' identifier.value else identifier.value

/-- The texts of qualifying names, each with its point. -/
def qualifierText : List Identifier → String
  | [] => ""
  | part :: rest => part.text ++ "." ++ qualifierText rest

/-- The text of a qualified name. -/
def QualifiedName.text (name : QualifiedName) : String :=
  qualifierText name.qualifier ++ name.name.text

/-- The text of a literal; a real number keeps a point or an exponent. -/
def Literal.text : Literal → String
  | .integer value => value.toInt.repr
  | .real value => Layout.query.text value
  | .string value => quoted '\'' value
  | .boolean value => if value then "TRUE" else "FALSE"
  | .null => "NULL"

/-- Is the literal written with a leading minus sign? -/
def Literal.isNegative : Literal → Bool
  | .integer value => value < 0
  | .real value => value.isNegative
  | _ => false

/-! ### Levels -/

/-- The level of what never needs parentheses. -/
def atomLevel : Nat := 255

/-- The level of a binary operator; one that the table lacks needs no parentheses. -/
def PrecedenceTable.binaryLevel (table : PrecedenceTable) (op : BinaryOp) : Nat :=
  (table.binding? op).elim atomLevel (·.level)

/-- The loosest level of the right operand of a binary operator. -/
def PrecedenceTable.rightLevel (table : PrecedenceTable) (op : BinaryOp) : Nat :=
  (table.binding? op).elim atomLevel (·.rightOperandLevel)

/-- How tightly the outermost operator of an expression binds. -/
def Expr.level (table : PrecedenceTable) : Expr → Nat
  | .binary _ op _ => table.binaryLevel op
  | .unary op _ => table.prefixLevel op
  | .isNull .. | .between .. | .inList .. | .inQuery .. | .like .. => table.predicateLevel
  | .literal value => if value.isNegative then table.unaryLevel else atomLevel
  | _ => atomLevel

/-- Does an expression need parentheses where only what binds at a level or tighter may stand? -/
def Expr.looserThan (expr : Expr) (minLevel : Nat) : Bool :=
  expr.level .adql < minLevel

/-! ### Pieces of text -/

/-- An operand where only what binds at a level or tighter may stand bare. -/
def operandText (operand : Expr) (text : String) (minLevel : Nat) : String :=
  parenthesizedIf (operand.looserThan minLevel) text

/-- A right operand; a prefix operator stands bare. -/
def rightOperandText (operand : Expr) (text : String) (minLevel : Nat) : String :=
  parenthesizedIf (operand.looserThan minLevel && !operand.isUnary) text

/-- A prefix operator and its operand; two minus signs are kept apart, for together they would
start a comment. -/
def prefixText (op : UnaryOp) (operand : String) : String :=
  match op with
  | .not => "NOT " ++ operand
  | .neg => if operand.toList.head? = some '-' then "- " ++ operand else "-" ++ operand
  | .plus => "+" ++ operand
  | .bitNot => "~" ++ operand

/-- A word of a predicate between two spaces, negated if need be. -/
def predicateText (negated : Bool) (word : String) : String :=
  if negated then " NOT " ++ word ++ " " else " " ++ word ++ " "

/-- A text behind a word, or nothing. -/
def clauseText (word : String) : Option String → String
  | none => ""
  | some text => word ++ text

/-- Texts behind a word, or nothing if there are none. -/
def listClauseText (word : String) : List String → String
  | [] => ""
  | text :: rest => word ++ commaSeparated (text :: rest)

/-- The number of rows to skip, or nothing. -/
def offsetText (offset : Option UInt64) : String :=
  clauseText " OFFSET " (offset.map fun count => count.toNat.repr)

/-- A name given to a table or a select item, or nothing. -/
def aliasText (alias? : Option Identifier) : String :=
  clauseText " AS " (alias?.map Identifier.text)

/-- Is a join outermost? -/
def TableRef.isJoin : TableRef → Bool
  | .join .. => true
  | _ => false

/-- Is a set operator outermost that binds looser than a level? -/
def QueryBody.looserThan (body : QueryBody) (level : Nat) : Bool :=
  match body with
  | .setOperation op .. => op.level < level
  | _ => false

/-! ### Trees -/

/-- The level of the postfix predicates. -/
def predicateLevel : Nat := PrecedenceTable.adql.predicateLevel

mutual

/-- The text of an expression. -/
def Expr.text : Expr → String
  | .literal value => value.text
  | .column name => name.text
  | .wildcard qualifier => qualifierText qualifier ++ "*"
  | .binary left op right =>
    operandText left left.text (PrecedenceTable.adql.binaryLevel op) ++
      " " ++ op.spelling ++ " " ++
      rightOperandText right right.text (PrecedenceTable.adql.rightLevel op)
  | .unary op operand =>
    prefixText op (rightOperandText operand operand.text (PrecedenceTable.adql.prefixLevel op))
  | .call name arguments distinct =>
    name.text ++
      parenthesized ((if distinct then "DISTINCT " else "") ++
        commaSeparated (Expr.textList arguments))
  | .geometry function arguments =>
    function.spelling ++ parenthesized (commaSeparated (Expr.textList arguments))
  | .isNull operand negated =>
    operandText operand operand.text predicateLevel ++
      (if negated then " IS NOT NULL" else " IS NULL")
  | .between operand low high negated =>
    operandText operand operand.text predicateLevel ++ predicateText negated "BETWEEN" ++
      operandText low low.text (predicateLevel + 1) ++ " AND " ++
      operandText high high.text (predicateLevel + 1)
  | .inList operand items negated =>
    operandText operand operand.text predicateLevel ++ predicateText negated "IN" ++
      parenthesized (commaSeparated (Expr.textList items))
  | .inQuery operand query negated =>
    operandText operand operand.text predicateLevel ++ predicateText negated "IN" ++
      parenthesized query.text
  | .like operand pattern escape negated caseInsensitive =>
    operandText operand operand.text predicateLevel ++
      predicateText negated (if caseInsensitive then "ILIKE" else "LIKE") ++
      operandText pattern pattern.text (predicateLevel + 1) ++
      Expr.escapeText escape
  | .exists query => "EXISTS " ++ parenthesized query.text
  | .subquery query => parenthesized query.text
  | .case subject branches otherwise =>
    "CASE" ++ clauseText " " (Expr.textOption subject) ++ Branch.textList branches ++
      clauseText " ELSE " (Expr.textOption otherwise) ++ " END"
  | .cast operand target => "CAST" ++ parenthesized (operand.text ++ " AS " ++ target.text)
  | .paren inner => parenthesized inner.text

/-- The texts of expressions. -/
def Expr.textList : List Expr → List String
  | [] => []
  | expr :: rest => expr.text :: Expr.textList rest

/-- The text of an expression that may be missing. -/
def Expr.textOption : Option Expr → Option String
  | none => none
  | some expr => some expr.text

/-- The escape clause of a pattern, or nothing. -/
def Expr.escapeText : Option Expr → String
  | none => ""
  | some escape => " ESCAPE " ++ operandText escape escape.text (predicateLevel + 1)

/-- The text of the branches of a case distinction. -/
def Branch.textList : List Branch → String
  | [] => ""
  | branch :: rest => branch.text ++ Branch.textList rest

/-- The text of a branch of a case distinction. -/
def Branch.text : Branch → String
  | ⟨condition, result⟩ => " WHEN " ++ condition.text ++ " THEN " ++ result.text

/-- The text of a sort key; ascending order goes without saying. -/
def SortKey.text : SortKey → String
  | ⟨expr, direction⟩ =>
    expr.text ++
      match direction with
      | .ascending => ""
      | .descending => " DESC"

/-- The texts of sort keys. -/
def SortKey.textList : List SortKey → List String
  | [] => []
  | key :: rest => key.text :: SortKey.textList rest

/-- The text of a select item. -/
def SelectItem.text : SelectItem → String
  | ⟨expr, alias?⟩ => expr.text ++ aliasText alias?

/-- The texts of select items. -/
def SelectItem.textList : List SelectItem → List String
  | [] => []
  | item :: rest => item.text :: SelectItem.textList rest

/-- The text of what matches the rows of a join. -/
def JoinConstraint.text : JoinConstraint → String
  | .on condition => " ON " ++ condition.text
  | .using columns => " USING " ++ parenthesized (commaSeparated (columns.map Identifier.text))
  | .none => ""

/-- The text of a table; joins nest to the left, so a join on the right needs parentheses. -/
def TableRef.text : TableRef → String
  | .table name alias? => name.text ++ aliasText alias?
  | .subquery query name => parenthesized query.text ++ " AS " ++ name.text
  | .join left kind natural right constraint =>
    left.text ++ " " ++ (if natural then "NATURAL " else "") ++ kind.spelling ++ " " ++
      parenthesizedIf right.isJoin right.text ++ constraint.text
  | .nested inner => parenthesized inner.text

/-- The texts of tables. -/
def TableRef.textList : List TableRef → List String
  | [] => []
  | table :: rest => table.text :: TableRef.textList rest

/-- The text of a specification. -/
def QuerySpec.text : QuerySpec → String
  | ⟨distinct, top, items, tables, condition, groups, having, keys, offset⟩ =>
    "SELECT " ++ (if distinct then "DISTINCT " else "") ++
      (match top with
        | none => ""
        | some count => "TOP " ++ count.toNat.repr ++ " ") ++
      commaSeparated (SelectItem.textList items) ++
      " FROM " ++ commaSeparated (TableRef.textList tables) ++
      clauseText " WHERE " (Expr.textOption condition) ++
      listClauseText " GROUP BY " (Expr.textList groups) ++
      clauseText " HAVING " (Expr.textOption having) ++
      listClauseText " ORDER BY " (SortKey.textList keys) ++
      offsetText offset

/-- The text of a query body; set operators group to the left. -/
def QueryBody.text : QueryBody → String
  | .spec spec => spec.text
  | .setOperation op all left right =>
    parenthesizedIf (left.looserThan op.level) left.text ++ " " ++ op.spelling ++
      (if all then " ALL " else " ") ++
      parenthesizedIf (right.looserThan (op.level + 1)) right.text
  | .nested query => parenthesized query.text

/-- The text of a named query. -/
def CommonTable.text : CommonTable → String
  | ⟨name, columns, query⟩ =>
    name.text ++
      (if columns.isEmpty then ""
        else parenthesized (commaSeparated (columns.map Identifier.text))) ++
      " AS " ++ parenthesized query.text

/-- The texts of named queries. -/
def CommonTable.textList : List CommonTable → List String
  | [] => []
  | table :: rest => table.text :: CommonTable.textList rest

/-- The text of a query. -/
def Query.text : Query → String
  | ⟨commonTables, body, keys, offset⟩ =>
    (match CommonTable.textList commonTables with
      | [] => ""
      | texts => "WITH " ++ commaSeparated texts ++ " ") ++
      body.text ++
      listClauseText " ORDER BY " (SortKey.textList keys) ++
      offsetText offset

end

end Adql
