import Adql.Traversal.Passes
import Adql.Proofs.Folding.Simulation

/-!
# What observers and transformers meet

Observing a tree and transforming it are two recursions of their own.  Here both are recorded: each
time that a node is met, the record keeps the node and the node inside which it was met (`Meeting`).
An observer that only looks on meets two kinds of nodes that a transformer does not: select items,
and the columns that a join names.  Without these, the two records show the same nodes in the same
order, and the transformer gives the tree back (`Query.traversals_agree`).

The proof relates the two recorded traversals of each part of a tree (`Agree`), by induction over
the trees.
-/

namespace Adql

/-! ### Records -/

/-- That a node was met. -/
structure Meeting where
  /-- The node. -/
  node : Node
  /-- The innermost node inside which it was met. -/
  inside : Option Node

/-- An action inside of a node, which keeps a record of the nodes that it meets. -/
abbrev Recorded : Type → Type :=
  ReaderT (Option Node) (StateM (List Meeting))

/-- Records that a node is met, and does something inside it. -/
def Recorded.meeting {α : Type} (node : Node) (inner : Recorded α) : Recorded α := fun inside => do
  modify (· ++ [⟨node, inside⟩])
  inner.run (some node)

/-- Records all nodes, and looks into them. -/
def Observer.recording : Observer Recorded :=
  fun node walk => Recorded.meeting node walk

/-- Records all nodes, and leaves the tree as it is. -/
def Transformer.recording : Transformer Recorded :=
  fun node rebuild => Recorded.meeting node (Transformer.identity node rebuild)

/-- What is met in observing a query. -/
def Query.observed (query : Query) : List Meeting :=
  ((Observer.recording.seeQuery query).run none |>.run []).2

/-- What is met in transforming a query, and the new query. -/
def Query.transformed (query : Query) : Query × List Meeting :=
  (Transformer.recording.applyToQuery query).run none |>.run []

/-! ### What only an observer meets -/

/-- Is the node a join? -/
def Node.isJoin : Node → Bool
  | .join .. => true
  | _ => false

/-- Is the node a column? -/
def Node.isColumn : Node → Bool
  | .column _ => true
  | _ => false

/-- Is the node a select item? -/
def Node.isSelectItem : Node → Bool
  | .selectItem _ => true
  | _ => false

/-- Was a column met that a join names?  The columns of expressions are met inside expressions. -/
def Meeting.isNamedByJoin (met : Meeting) : Bool :=
  met.node.isColumn && met.inside.any Node.isJoin

/-- Would a transformer meet the node, too? -/
def Meeting.isCommon (met : Meeting) : Bool :=
  !(met.node.isSelectItem || met.isNamedByJoin)

/-- The nodes that an observer met, without those that a transformer does not meet. -/
def commonNodes (met : List Meeting) : List Node :=
  (met.filter Meeting.isCommon).map Meeting.node

/-- A node that was met last is the last one, if a transformer meets it. -/
theorem commonNodes_concat {met : List Meeting} {last : Meeting} (common : last.isCommon = true) :
    commonNodes (met ++ [last]) = commonNodes met ++ [last.node] := by
  simp [commonNodes, common]

/-- A node that was met last is left out, if a transformer does not meet it. -/
theorem commonNodes_concat_of_not {met : List Meeting} {last : Meeting}
    (own : last.isCommon = false) : commonNodes (met ++ [last]) = commonNodes met := by
  simp [commonNodes, own]

/-- A column is met inside the expression that it is, or inside a join that names it. -/
def Meeting.IsPlaced : Meeting → Prop
  | ⟨.column name, inside⟩ =>
    inside = some (.expr (.column name)) ∨
      ∃ left kind natural right names,
        inside = some (.join left kind natural right (.using names)) ∧
          name.qualifier = [] ∧ name.name ∈ names
  | _ => True

/-! ### Traversals that agree -/

/-- What an observer met, and what a transformer met meanwhile. -/
structure Matches (met met' : List Meeting) : Prop where
  /-- The nodes are the same, but for those that a transformer does not meet. -/
  nodes : commonNodes met = met'.map Meeting.node
  /-- The columns are where they belong. -/
  placed : ∀ meeting ∈ met, meeting.IsPlaced

namespace Matches

variable {met met' : List Meeting} {node : Node} {inside : Option Node}

/-- Both meet a node. -/
theorem both (same : Matches met met') (around : Option Node)
    (placed : Meeting.IsPlaced ⟨node, inside⟩) (common : Meeting.isCommon ⟨node, inside⟩ = true) :
    Matches (met ++ [⟨node, inside⟩]) (met' ++ [⟨node, around⟩]) where
  nodes := by
    rw [commonNodes_concat common, same.nodes, List.map_append]
    rfl
  placed := List.forall_mem_append.2 ⟨same.placed, List.forall_mem_singleton.2 placed⟩

/-- Only the observer meets a node. -/
theorem one (same : Matches met met') (placed : Meeting.IsPlaced ⟨node, inside⟩)
    (own : Meeting.isCommon ⟨node, inside⟩ = false) : Matches (met ++ [⟨node, inside⟩]) met' where
  nodes := by rw [commonNodes_concat_of_not own, same.nodes]
  placed := List.forall_mem_append.2 ⟨same.placed, List.forall_mem_singleton.2 placed⟩

end Matches

variable {α β : Type}

/-- Inside of a node, two recorded traversals of a part of a tree meet the same nodes, but for those
that only an observer meets, and the second one gives the part back. -/
def Agree (inside : Option Node) (walk : Recorded Unit) (rebuild : Recorded α) (part : α) : Prop :=
  ∀ (around : Option Node) (met met' : List Meeting), Matches met met' →
    Matches (walk inside met).2 (rebuild around met').2 ∧ (rebuild around met').1 = part

namespace Agree

variable {inside : Option Node} {node : Node}

/-- Nothing is met in both. -/
theorem pure (part : α) : Agree inside (Pure.pure ()) (Pure.pure part) part :=
  fun _ _ _ same => ⟨same, rfl⟩

/-- One part after another. -/
theorem bind {walk next : Recorded Unit} {rebuild : Recorded α} {after : α → Recorded β} {part : α}
    {whole : β} (first : Agree inside walk rebuild part)
    (rest : Agree inside next (after part) whole) :
    Agree inside (walk >>= fun _ => next) (rebuild >>= after) whole := by
  intro around met met' same
  obtain ⟨same, kept⟩ := first around met met' same
  have further := rest around _ _ same
  change Matches (next inside (walk inside met).2).2
      (after (rebuild around met').1 around (rebuild around met').2).2 ∧
    (after (rebuild around met').1 around (rebuild around met').2).1 = whole
  rwa [kept]

/-- What stands around the part is put around the part that was given back. -/
theorem map {walk : Recorded Unit} {rebuild : Recorded α} {part : α} (whole : α → β)
    (agree : Agree inside walk rebuild part) :
    Agree inside walk (rebuild >>= fun value => Pure.pure (whole value)) (whole part) := by
  intro around met met' same
  obtain ⟨same, kept⟩ := agree around met met' same
  exact ⟨same, congrArg whole kept⟩

/-- A node that both meet. -/
theorem meeting {walk : Recorded Unit} {rebuild : Recorded node.Result} {part : node.Result}
    (agree : Agree (some node) walk rebuild part) (placed : Meeting.IsPlaced ⟨node, inside⟩)
    (common : Meeting.isCommon ⟨node, inside⟩ = true) :
    Agree inside (Observer.recording node walk) (Transformer.recording node rebuild) part :=
  fun around _ _ same => agree (some node) _ _ (same.both around placed common)

/-- A node that only an observer meets. -/
theorem observing {walk : Recorded Unit} {rebuild : Recorded α} {part : α}
    (agree : Agree (some node) walk rebuild part) (placed : Meeting.IsPlaced ⟨node, inside⟩)
    (own : Meeting.isCommon ⟨node, inside⟩ = false) :
    Agree inside (Observer.recording node walk) rebuild part :=
  fun around _ _ same => agree around _ _ (same.one placed own)

/-- An expression, if its parts agree. -/
theorem expr {expr : Expr} (parts : Agree (some (.expr expr)) (expr.walk Observer.recording)
      (expr.rebuild Transformer.recording) expr) :
    Agree inside (Observer.recording (.expr expr) (expr.walk Observer.recording))
      (Transformer.recording (.expr expr) (expr.rebuild Transformer.recording)) expr :=
  .meeting parts trivial rfl

/-- A table, if its parts agree. -/
theorem table {table : TableRef} (parts : Agree (some (.table table))
      (table.walk Observer.recording) (table.rebuild Transformer.recording) table) :
    Agree inside (Observer.recording (.table table) (table.walk Observer.recording))
      (Transformer.recording (.table table) (table.rebuild Transformer.recording)) table :=
  .meeting parts trivial rfl

/-- A query body, if its parts agree. -/
theorem queryBody {body : QueryBody} (parts : Agree (some (.queryBody body))
      (body.walk Observer.recording) (body.rebuild Transformer.recording) body) :
    Agree inside (Observer.recording (.queryBody body) (body.walk Observer.recording))
      (Transformer.recording (.queryBody body) (body.rebuild Transformer.recording)) body :=
  .meeting parts trivial rfl

/-- A query, if its parts agree. -/
theorem query {query : Query} (parts : Agree (some (.query query))
      (query.walk Observer.recording) (query.rebuild Transformer.recording) query) :
    Agree inside (Observer.recording.seeQuery query) (Transformer.recording.applyToQuery query)
      query :=
  .meeting parts trivial rfl

/-- A query inside an expression or a `FROM` clause, if its parts agree. -/
theorem subquery {query : Query} (parts : Agree (some (.query query))
      (query.walk Observer.recording) (query.rebuild Transformer.recording) query) :
    Agree inside (Observer.recording (.subquery query) (Observer.recording.seeQuery query))
      (Transformer.recording (.subquery query) (Transformer.recording.applyToQuery query)) query :=
  .meeting (.query parts) trivial rfl

end Agree

/-! ### Trees -/

/-- The columns that a join names are met by an observer only. -/
theorem Identifier.walkColumns_agree {left right : TableRef} {kind : JoinKind} {natural : Bool}
    {named : List Identifier} {part : α} :
    ∀ names ⊆ named, Agree (some (.join left kind natural right (.using named)))
      (Identifier.walkColumns Observer.recording names) (pure part) part
  | [], _ => .pure part
  | name :: rest, among => by
    obtain ⟨first, others⟩ := List.cons_subset.1 among
    refine .bind (.observing (.pure part) ?_ rfl) (Identifier.walkColumns_agree rest others)
    exact Or.inr ⟨left, kind, natural, right, named, rfl, rfl, first⟩

mutual

/-- The traversals of the parts of an expression agree. -/
theorem Expr.walk_agree : ∀ expr : Expr, Agree (some (.expr expr)) (expr.walk Observer.recording)
    (expr.rebuild Transformer.recording) expr
  | .literal _ => .meeting (.pure _) trivial rfl
  | .column _ => .meeting (.pure _) (Or.inl rfl) rfl
  | .wildcard _ => .pure _
  | .binary left _ right =>
    .meeting (.bind (.expr left.walk_agree) <| .map _ (.expr right.walk_agree)) trivial rfl
  | .unary _ operand => .meeting (.map _ (.expr operand.walk_agree)) trivial rfl
  | .call _ arguments _ => .meeting (.map _ (Expr.walkList_agree arguments)) trivial rfl
  | .geometry _ arguments => .meeting (.map _ (Expr.walkList_agree arguments)) trivial rfl
  | .isNull operand _ => .map _ (.expr operand.walk_agree)
  | .between operand low high _ =>
    .bind (.expr operand.walk_agree) <| .bind (.expr low.walk_agree) <|
      .map _ (.expr high.walk_agree)
  | .inList operand items _ =>
    .bind (.expr operand.walk_agree) <| .map _ (Expr.walkList_agree items)
  | .inQuery operand query _ =>
    .bind (.expr operand.walk_agree) <| .map _ (.subquery query.walk_agree)
  | .like operand pattern escape _ _ =>
    .bind (.expr operand.walk_agree) <| .bind (.expr pattern.walk_agree) <|
      .map _ (Expr.walkOption_agree escape)
  | .exists query => .map _ (.subquery query.walk_agree)
  | .subquery query => .map _ (.subquery query.walk_agree)
  | .case subject branches otherwise =>
    .bind (Expr.walkOption_agree subject) <| .bind (Branch.walkList_agree branches) <|
      .map _ (Expr.walkOption_agree otherwise)
  | .cast operand _ => .map _ (.expr operand.walk_agree)
  | .paren inner => .map _ (.expr inner.walk_agree)

/-- The traversals of expressions agree. -/
theorem Expr.walkList_agree {inside : Option Node} :
    ∀ exprs : List Expr, Agree inside (Expr.walkList Observer.recording exprs)
      (Expr.rebuildList Transformer.recording exprs) exprs
  | [] => .pure _
  | expr :: rest => .bind (.expr expr.walk_agree) <| .map _ (Expr.walkList_agree rest)

/-- The traversals of an expression that may be missing agree. -/
theorem Expr.walkOption_agree {inside : Option Node} :
    ∀ expr? : Option Expr, Agree inside (Expr.walkOption Observer.recording expr?)
      (Expr.rebuildOption Transformer.recording expr?) expr?
  | none => .pure _
  | some expr => .map _ (.expr expr.walk_agree)

/-- The traversals of the parts of a branch agree. -/
theorem Branch.walk_agree {inside : Option Node} :
    ∀ branch : Branch, Agree inside (branch.walk Observer.recording)
      (branch.rebuild Transformer.recording) branch
  | ⟨condition, result⟩ => .bind (.expr condition.walk_agree) <| .map _ (.expr result.walk_agree)

/-- The traversals of branches agree. -/
theorem Branch.walkList_agree {inside : Option Node} :
    ∀ branches : List Branch, Agree inside (Branch.walkList Observer.recording branches)
      (Branch.rebuildList Transformer.recording branches) branches
  | [] => .pure _
  | branch :: rest => .bind branch.walk_agree <| .map _ (Branch.walkList_agree rest)

/-- The traversals of a sort key agree. -/
theorem SortKey.walk_agree {inside : Option Node} :
    ∀ key : SortKey, Agree inside (key.walk Observer.recording)
      (key.rebuild Transformer.recording) key
  | ⟨expr, _⟩ => .map _ (.expr expr.walk_agree)

/-- The traversals of sort keys agree. -/
theorem SortKey.walkList_agree {inside : Option Node} :
    ∀ keys : List SortKey, Agree inside (SortKey.walkList Observer.recording keys)
      (SortKey.rebuildList Transformer.recording keys) keys
  | [] => .pure _
  | key :: rest => .bind key.walk_agree <| .map _ (SortKey.walkList_agree rest)

/-- The traversals of the parts of a select item agree. -/
theorem SelectItem.walk_agree {inside : Option Node} :
    ∀ item : SelectItem, Agree inside (item.walk Observer.recording)
      (item.rebuild Transformer.recording) item
  | ⟨expr, _⟩ => .map _ (.expr expr.walk_agree)

/-- The traversals of select items agree: the transformer meets their expressions only. -/
theorem SelectItem.walkList_agree {inside : Option Node} :
    ∀ items : List SelectItem, Agree inside (SelectItem.walkList Observer.recording items)
      (SelectItem.rebuildList Transformer.recording items) items
  | [] => .pure _
  | item :: rest =>
    .bind (.observing item.walk_agree trivial rfl) <| .map _ (SelectItem.walkList_agree rest)

/-- The traversals of what matches the rows of a join agree: the transformer meets no columns that
the join names. -/
theorem JoinConstraint.walk_agree {left right : TableRef} {kind : JoinKind} {natural : Bool} :
    ∀ constraint : JoinConstraint, Agree (some (.join left kind natural right constraint))
      (constraint.walk Observer.recording) (constraint.rebuild Transformer.recording) constraint
  | .on condition => .map _ (.expr condition.walk_agree)
  | .using names => Identifier.walkColumns_agree names (List.Subset.refl names)
  | .none => .pure _

/-- The traversals of the parts of a table agree. -/
theorem TableRef.walk_agree {inside : Option Node} :
    ∀ table : TableRef, Agree inside (table.walk Observer.recording)
      (table.rebuild Transformer.recording) table
  | .table _ _ => .pure _
  | .subquery query _ => .map _ (.subquery query.walk_agree)
  | .join left _ _ right constraint =>
    .meeting (.bind (.table left.walk_agree) <| .bind (.table right.walk_agree) <|
      .map _ constraint.walk_agree) trivial rfl
  | .nested inner => .map _ (.table inner.walk_agree)

/-- The traversals of tables agree. -/
theorem TableRef.walkList_agree {inside : Option Node} :
    ∀ tables : List TableRef, Agree inside (TableRef.walkList Observer.recording tables)
      (TableRef.rebuildList Transformer.recording tables) tables
  | [] => .pure _
  | table :: rest => .bind (.table table.walk_agree) <| .map _ (TableRef.walkList_agree rest)

/-- The traversals of the parts of a specification agree. -/
theorem QuerySpec.walk_agree {inside : Option Node} :
    ∀ spec : QuerySpec, Agree inside (spec.walk Observer.recording)
      (spec.rebuild Transformer.recording) spec
  | ⟨_, _, items, tables, condition, groups, having, keys, _⟩ =>
    .bind (SelectItem.walkList_agree items) <| .bind (TableRef.walkList_agree tables) <|
      .bind (Expr.walkOption_agree condition) <| .bind (Expr.walkList_agree groups) <|
      .bind (Expr.walkOption_agree having) <| .map _ (SortKey.walkList_agree keys)

/-- The traversals of the parts of a query body agree. -/
theorem QueryBody.walk_agree {inside : Option Node} :
    ∀ body : QueryBody, Agree inside (body.walk Observer.recording)
      (body.rebuild Transformer.recording) body
  | .spec spec => .map _ (.meeting spec.walk_agree trivial rfl)
  | .setOperation _ _ left right =>
    .bind (.queryBody left.walk_agree) <| .map _ (.queryBody right.walk_agree)
  | .nested query => .map _ (.query query.walk_agree)

/-- The traversals of a named query agree. -/
theorem CommonTable.walk_agree {inside : Option Node} :
    ∀ table : CommonTable, Agree inside (table.walk Observer.recording)
      (table.rebuild Transformer.recording) table
  | ⟨_, _, query⟩ => .map _ (.query query.walk_agree)

/-- The traversals of named queries agree. -/
theorem CommonTable.walkList_agree {inside : Option Node} :
    ∀ tables : List CommonTable, Agree inside (CommonTable.walkList Observer.recording tables)
      (CommonTable.rebuildList Transformer.recording tables) tables
  | [] => .pure _
  | table :: rest => .bind table.walk_agree <| .map _ (CommonTable.walkList_agree rest)

/-- The traversals of the parts of a query agree. -/
theorem Query.walk_agree {inside : Option Node} :
    ∀ query : Query, Agree inside (query.walk Observer.recording)
      (query.rebuild Transformer.recording) query
  | ⟨commonTables, body, keys, _⟩ =>
    .bind (CommonTable.walkList_agree commonTables) <| .bind (.queryBody body.walk_agree) <|
      .map _ (SortKey.walkList_agree keys)

end

/-! ### Whole queries -/

/-- What an observer and a transformer meet in a query matches, and the query is given back. -/
theorem Query.traversals_match (query : Query) :
    Matches query.observed query.transformed.2 ∧ query.transformed.1 = query :=
  @Agree.query none query query.walk_agree none [] [] ⟨rfl, List.forall_mem_nil _⟩

/-- Each column that an observer meets in a query is met inside the expression that it is, or inside
a join that names it. -/
theorem Query.observed_columns {query : Query} {name : QualifiedName} {inside : Option Node}
    (met : ⟨.column name, inside⟩ ∈ query.observed) :
    inside = some (.expr (.column name)) ∨
      ∃ left kind natural right names,
        inside = some (.join left kind natural right (.using names)) ∧
          name.qualifier = [] ∧ name.name ∈ names :=
  query.traversals_match.1.placed _ met

/-- A recorded action gives what an action without a record gives. -/
def Simulation.unrecorded : Simulation Id Recorded where
  relates plain recorded := ∀ inside met, (recorded inside met).1 = plain
  of_pure _ _ _ := rfl
  of_bind {_ _ first second next after} same alike inside met := by
    change (after (second inside met).1 inside (second inside met).2).1 = next first
    rw [same inside met]
    exact alike first inside _

/-- To keep a record changes nothing in what is given back. -/
theorem Transformer.recording_simulates :
    Transformer.Simulates .unrecorded (Transformer.identity (m := Id)) Transformer.recording := by
  intro node _ _ same inside met
  exact same (some node) (met ++ [⟨node, inside⟩])

/-- A transformer that leaves all nodes as they are gives the query back. -/
theorem Query.applyToQuery_identity (query : Query) :
    Transformer.identity.applyToQuery (m := Id) query = query := by
  have same := query.rebuild_simulates Transformer.recording_simulates
  have unrecorded := Transformer.recording_simulates (.query query) _ _ same none []
  exact unrecorded.symm.trans query.traversals_match.2

/-- A transformer that leaves all nodes as they are gives a query back, and it meets the nodes that
an observer meets that looks into all of them, in the same order; but for select items and columns
that joins name, which only the observer meets. -/
theorem Query.traversals_agree (query : Query) :
    Transformer.identity.applyToQuery (m := Id) query = query ∧
      query.transformed.1 = query ∧
      query.transformed.2.map Meeting.node =
        (query.observed.filter fun met => !(met.node.isSelectItem || met.isNamedByJoin)).map
          Meeting.node := by
  obtain ⟨same, kept⟩ := query.traversals_match
  exact ⟨query.applyToQuery_identity, kept, same.nodes.symm⟩

end Adql
