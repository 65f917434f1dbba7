import Adql.Traversal.Observer
import Adql.Traversal.Transformer

/-!
# Passes over trees

Observers that collect columns, leaves or a log of all nodes, and transformers that change one kind
of node and leave the rest of the tree to the traversal.
-/

namespace Adql

/-! ### Observers -/

/-- Collects the columns, those that joins name included. -/
def Observer.columns : Observer (StateM (Array QualifiedName)) := fun node walk =>
  match node with
  | .column name => modify (·.push name)
  | _ => walk

/-- Collects the texts of literals and columns. -/
def Observer.leaves : Observer (StateM (Array String)) := fun node walk =>
  match node with
  | .literal value => modify (·.push value.text)
  | .column name => modify (·.push name.text)
  | _ => walk

/-- A log of the nodes of a traversal, each at its depth. -/
structure NodeLog where
  /-- How many nodes are open. -/
  depth : Nat
  /-- The lines so far. -/
  lines : Array String

/-- A log without lines. -/
def NodeLog.empty : NodeLog := ⟨0, #[]⟩

/-- Logs a node in front of what is done inside it. -/
def NodeLog.around {α : Type} (node : Node) (inner : StateM NodeLog α) : StateM NodeLog α := do
  modify fun log => ⟨log.depth + 1, log.lines.push (node.logLine log.depth)⟩
  let value ← inner
  modify fun log => { log with depth := log.depth - 1 }
  pure value

/-- Logs every node, and looks into those whose kind is not to be skipped. -/
def Observer.log (skip : List String) : Observer (StateM NodeLog) := fun node walk =>
  NodeLog.around node (if node.label ∈ skip then pure () else walk)

/-- The columns of an expression in the order of the text, with repetitions. -/
def Expr.columns (expr : Expr) : List QualifiedName :=
  ((Observer.columns.seeExpr expr).run #[]).2.toList

/-- The columns of a query in the order of the text, with repetitions. -/
def Query.columns (query : Query) : List QualifiedName :=
  ((Observer.columns.seeQuery query).run #[]).2.toList

/-! ### Transformers -/

/-- Leaves the tree as it is. -/
def Transformer.identity {m : Type → Type} : Transformer m :=
  fun _ rebuild => rebuild

/-- Leaves the tree as it is, and logs every node. -/
def Transformer.log : Transformer (StateM NodeLog) :=
  fun node rebuild => NodeLog.around node rebuild

/-- Puts the content of parentheses in their place. -/
def Transformer.withoutParentheses : Transformer Id := fun node rebuild =>
  match node with
  | .expr _ =>
    match Id.run rebuild with
    | .paren inner => inner
    | expr => expr
  | _ => rebuild

/-- Doubles integers, without regard to their range, and wraps each column in a call. -/
def Transformer.marks : Transformer Id := fun node rebuild =>
  match node with
  | .literal (.integer value) => Expr.integer (value * 2)
  | .column name => Expr.call (.regular "col") [.column name] false
  | _ => rebuild

/-- Does the same outside subqueries. -/
def Transformer.marksOutside : Transformer Id
  | .subquery query, _ => query
  | node, rebuild => marks node rebuild

/-- The opposite order of operands: a binary operator exchanges its operands, a plus sign
disappears, a call is distinct when its name is a reserved word, and the first of three arguments
of a geometry call becomes a coordinate system. -/
def Transformer.exchange : Transformer Id := fun node rebuild =>
  match node with
  | .binary .. =>
    match Id.run rebuild with
    | .binary left op right => Expr.binary right op left
    | expr => expr
  | .unary .plus _ =>
    match Id.run rebuild with
    | .unary _ operand => operand
    | expr => expr
  | .call name _ _ =>
    match Id.run rebuild with
    | .call _ arguments _ => Expr.call name arguments (Keyword.ofWord? name.value).isSome
    | expr => expr
  | .geometry .. =>
    match Id.run rebuild with
    | .geometry function arguments =>
      if arguments.length = 3 then Expr.geometry function (.string "ICRS" :: arguments.tail)
      else Expr.geometry function arguments
    | expr => expr
  | _ => rebuild

end Adql
