import Adql.Proofs.Queries.Selections

/-!
# Printed joins

Named tables that are joined, in any shape.  Joins nest to the left, so the printer puts a join in
parentheses where it stands on the right, and the parentheses are read as a node of their own
(`TableRef.parenthesized`).  A parenthesis in a `FROM` clause is tried as a query with a name first;
behind the parentheses at its start stands the name of a table, so no query is read up to a closing
parenthesis (`TableRef.IsRead.unclosed`), and the parenthesis is read as joins.
-/

namespace Adql

open Adql.Parser Adql.Grammar

/-! ### Constraints -/

/-- Names in parentheses are read, whatever stands behind them. -/
theorem reads_nameList {names : List Identifier} (nonempty : names ≠ [])
    (valid : ∀ name ∈ names, name.Valid) (behind : List Word) :
    Reads nameList (enclosed (separated .comma (names.map fun name => [name.word])) ++ behind) names
      behind := by
  have stops : firstKind (TokenKind.rightParen.word :: behind) ≠ .comma := nofun
  have read : Reads (oneOrMore .comma identifier)
      (separated .comma (names.map fun name => [name.word]) ++ TokenKind.rightParen.word :: behind)
      names (TokenKind.rightParen.word :: behind) :=
    reads_separated (F := fun _ => True) (fun _ => trivial) trivial stops nonempty
      fun name mem words _ => reads_identifier (valid name mem).identifier? words
  rw [enclosed, List.cons_append, List.append_assoc, List.singleton_append]
  exact .expect_bind rfl (read.bind (.expect_bind rfl (.pure names behind)))

/-- What matches the rows of a join: nothing in products and natural joins, and a comparison of columns
or names of columns in any other join.  There are no natural products. -/
inductive JoinConstraint.Matches : JoinKind → Bool → JoinConstraint → Prop
  | product : Matches .cross false .none
  | natural {kind : JoinKind} : kind ≠ .cross → Matches kind true .none
  | comparison {kind : JoinKind} {left right : QualifiedName} (op : BinaryOp) : kind ≠ .cross →
      left.Valid → right.Valid → Matches kind false (.on (.binary (.column left) op (.column right)))
  | columns {kind : JoinKind} {columns : List Identifier} : kind ≠ .cross → columns ≠ [] →
      (∀ column ∈ columns, column.Valid) → Matches kind false (.using columns)

namespace JoinConstraint.Matches

variable {kind : JoinKind} {natural : Bool} {constraint : JoinConstraint} {allowance : Nat}
  {behind : List Word}

/-- Natural joins are no products. -/
theorem ne_cross (h : constraint.Matches kind natural) (isNatural : natural = true) :
    kind ≠ .cross := by
  cases h with
  | natural other => exact other
  | product | comparison | columns => cases isNatural

/-- The words of a constraint can be written. -/
theorem spelled (h : constraint.Matches kind natural) :
    ∀ word ∈ constraint.words true, word.Spelled := by
  cases h with
  | product | natural => exact fun _ h => nomatch h
  | @comparison _ left right op _ validLeft validRight =>
    rw [JoinConstraint.words, words_comparison]
    refine List.forall_mem_cons.mpr ⟨rfl, List.forall_mem_append.mpr ⟨validLeft.spelled,
      List.forall_mem_cons.mpr ⟨?_, validRight.spelled⟩⟩⟩
    cases op <;> rfl
  | columns _ _ valid =>
    refine List.forall_mem_cons.mpr ⟨rfl, spelled_enclosed (spelled_separated rfl ?_)⟩
    exact fun column mem => List.forall_mem_singleton.mpr (valid column mem).spelled

/-- Behind a joined table, its constraint is read. -/
theorem reads (h : constraint.Matches kind natural)
    (ends : endsExpression (firstKind behind) = true) :
    Reads (joinConstraint (apply true (allowance + 3)) (natural || kind = .cross))
      (constraint.words true ++ behind) constraint behind := by
  have matched (other : kind ≠ .cross) : (false || decide (kind = .cross)) = false := by simp [other]
  cases h with
  | product | natural => exact .pure _ behind
  | comparison op other validLeft validRight =>
    rw [matched other, JoinConstraint.words, words_comparison, List.cons_append, List.append_assoc]
    exact (Reads.eat_true rfl).bind ((reads_comparison op validLeft validRight ends).bind (.pure _ _))
  | @columns _ columns other nonempty valid =>
    rw [matched other]
    rw [JoinConstraint.words, List.cons_append]
    have other : firstKind (Keyword.USING.word :: (enclosed (separated .comma (columns.map fun column =>
        [column.word])) ++ behind)) ≠ .keyword .ON := nofun
    have names := reads_nameList nonempty valid behind
    exact (Reads.eat_false other).bind ((Reads.eat_true rfl).bind (names.bind (.pure _ behind)))

end JoinConstraint.Matches

/-- In front of a constraint stands a joined table. -/
theorem JoinConstraint.firstKind_words (constraint : JoinConstraint) {behind : List Word}
    (follows : firstKind behind ∈ afterTable) :
    firstKind (constraint.words true ++ behind) ∈ afterTable := by
  cases constraint with
  | on => exact show TokenKind.keyword .ON ∈ afterTable by decide
  | «using» => exact show TokenKind.keyword .USING ∈ afterTable by decide
  | none => exact follows

namespace TableRef

/-! ### Trees -/

/-- Named tables that are joined, in any shape, with or without parentheses. -/
inductive OfJoins : TableRef → Prop
  | named {table : TableRef} : table.IsNamed → OfJoins table
  | nested {inner : TableRef} : OfJoins inner → OfJoins (.nested inner)
  | join {left right : TableRef} {kind : JoinKind} {natural : Bool} {constraint : JoinConstraint} :
      OfJoins left → OfJoins right → constraint.Matches kind natural →
      OfJoins (.join left kind natural right constraint)

/-- The table without the nodes for parentheses around joins. -/
def unnested : TableRef → TableRef
  | .table name alias? => .table name alias?
  | .subquery query name => .subquery query name
  | .join left kind natural right constraint =>
    .join left.unnested kind natural right.unnested constraint
  | .nested inner => inner.unnested

/-- The table, in parentheses if need be. -/
def nestedIf (needed : Bool) (table : TableRef) : TableRef :=
  if needed then .nested table else table

/-- The table with a node for each pair of parentheses that the printer adds. -/
def parenthesized : TableRef → TableRef
  | .table name alias? => .table name alias?
  | .subquery query name => .subquery query name
  | .join left kind natural right constraint =>
    .join left.parenthesized kind natural (right.parenthesized.nestedIf right.isJoin) constraint
  | .nested inner => .nested inner.parenthesized

/-- Parentheses around joins are no part of the joins. -/
@[simp] theorem unnested_nestedIf (needed : Bool) (table : TableRef) :
    (table.nestedIf needed).unnested = table.unnested := by
  cases needed <;> simp [nestedIf, unnested]

namespace OfJoins

variable {table : TableRef}

/-- The added parentheses are around nothing but joins. -/
theorem unnested_parenthesized (h : table.OfJoins) :
    table.parenthesized.unnested = table.unnested := by
  induction h with
  | named isNamed =>
    cases isNamed with
    | mk => rfl
  | nested _ ih => simp [parenthesized, unnested, ih]
  | join _ _ _ ihLeft ihRight => simp [parenthesized, unnested, ihLeft, ihRight]

/-- The words of joined tables can be written. -/
theorem spelled (h : table.OfJoins) : ∀ word ∈ table.words true, word.Spelled := by
  induction h with
  | named isNamed => exact isNamed.spelled
  | nested _ ih => exact spelled_enclosed ih
  | @join left right kind natural constraint _ _ matched ihLeft ihRight =>
    have kinds : ∀ word ∈ kind.words, word.Spelled := by
      cases kind <;> simp [JoinKind.words, Keyword.spelled_word]
    exact List.forall_mem_append.mpr ⟨ihLeft, List.forall_mem_append.mpr ⟨spelled_wordIf _ natural,
      List.forall_mem_append.mpr ⟨kinds, List.forall_mem_append.mpr
        ⟨spelled_enclosedIf _ ihRight, matched.spelled⟩⟩⟩⟩

end OfJoins

/-! ### Reading -/

/-- The words of the table are read as a tree: as a table without joins, if there are none outside of
parentheses, and as the beginning of a chain of joins.  No query is read from them up to a closing
parenthesis. -/
structure IsRead (table tree : TableRef) (allowance : Nat) : Prop where
  /-- A table that is no join is read as such. -/
  primary : table.isJoin = false → ∀ behind, firstKind behind ∈ afterTable →
    Reads (apply true allowance .tablePrimary) (table.words true ++ behind) tree behind
  /-- A table is read as the beginning of a chain of joins. -/
  chain : ∀ behind, firstKind behind ∈ afterTable →
    Chains (apply true allowance .tablePrimary) (joinStep (apply true allowance))
      (table.words true ++ behind) tree behind
  /-- No query is read from the table up to a closing parenthesis. -/
  unclosed : ∀ behind, Unclosed allowance (table.words true ++ behind)

section

variable {table left right tree tree' : TableRef} {kind : JoinKind} {natural : Bool}
  {constraint constraint' : JoinConstraint} {depth allowance : Nat} {behind : List Word}

/-- A join is read behind its left table. -/
theorem reads_joinStep (left : TableRef) {words middle : List Word}
    (product : natural = true → kind ≠ .cross)
    (h : Reads (apply true allowance .tablePrimary) words right middle)
    (matched : Reads (joinConstraint (apply true allowance) (natural || kind = .cross)) middle
      constraint behind) :
    Reads (joinStep (apply true allowance) left)
      (wordIf .NATURAL natural ++ (kind.words ++ words))
      (.more (.join left kind natural right constraint)) behind := by
  have joined : Reads (joinedTable (apply true allowance) left natural) (kind.words ++ words)
      (.more (.join left kind natural right constraint)) behind :=
    (reads_joinKind product _).bind (h.bind (matched.bind (.pure _ _)))
  rw [joinStep_eq]
  cases natural with
  | true => exact (Reads.eat_true rfl).bind joined
  | false =>
    have other : firstKind (kind.words ++ words) ≠ .keyword .NATURAL := by
      cases kind <;> nofun
    exact (Reads.eat_false other).bind joined

/-- The words of a join stand behind its left table. -/
theorem firstKind_join (behind : List Word) :
    firstKind (wordIf .NATURAL natural ++ (kind.words ++ behind)) ∈ afterTable := by
  have joins : ∀ kind ∈ joinKinds, kind ∈ afterTable := by decide
  cases natural with
  | true => exact show TokenKind.keyword .NATURAL ∈ afterTable by decide
  | false => exact joins _ (kind.firstKind_words behind)

namespace IsRead

/-- A table that is read as such is the beginning of a chain of joins. -/
theorem of_primary (primary : ∀ behind, firstKind behind ∈ afterTable →
      Reads (apply true allowance .tablePrimary) (table.words true ++ behind) tree behind)
    (unclosed : ∀ behind, Unclosed allowance (table.words true ++ behind)) :
    table.IsRead tree allowance :=
  ⟨fun _ => primary, fun behind follows => .of_reads (primary behind follows), unclosed⟩

/-- A table that is read is read up to its end. -/
theorem tableReference (h : table.IsRead tree allowance) (ends : firstKind behind ∈ afterReference) :
    Reads (apply true (allowance + 1) .tableReference) (table.words true ++ behind) tree behind := by
  have follows : ∀ kind ∈ afterReference, kind ∈ afterTable := by decide
  exact .apply ((h.chain behind (follows _ ends)).reads (reads_joinStep_done _ _ ends))

/-- Joins that are read are read in parentheses as a table, whatever stands behind them; they are tried
as a query first. -/
theorem nested (h : table.IsRead tree allowance) (h' : table.IsRead tree' (allowance + 1))
    (behind : List Word) :
    Reads (apply true (allowance + 3) .tablePrimary) (enclosed (table.words true) ++ behind)
      (.nested tree) behind := by
  have inner : Reads (apply true (allowance + 1) .tableReference)
      (table.words true ++ TokenKind.rightParen.word :: behind) tree
      (TokenKind.rightParen.word :: behind) :=
    h.tableReference (show TokenKind.rightParen ∈ afterReference by decide)
  rw [enclosed, List.cons_append, List.append_assoc, List.singleton_append]
  have derived : Stalls (apply true (allowance + 2) .derivedTable)
      (TokenKind.leftParen.word :: (table.words true ++ TokenKind.rightParen.word :: behind)) :=
    .apply (.bind_left (.expect_bind rfl ((h'.unclosed _).stalls fun query _ => pure query)))
  have joins : Reads (apply true (allowance + 2) .nestedTable)
      (TokenKind.leftParen.word :: (table.words true ++ TokenKind.rightParen.word :: behind))
      (.nested tree) behind :=
    .apply (.map TableRef.nested (.expect_bind rfl (inner.bind (.expect_bind rfl (.pure _ behind)))))
  exact .apply ((Reads.check_true rfl).bind (.firstOf_right (derived.fails rfl) joins))

/-- Joins in parentheses are read if the joins are. -/
theorem enclosed (h : table.IsRead tree allowance) (h' : table.IsRead tree' (allowance + 1)) :
    (TableRef.nested table).IsRead (.nested tree) (allowance + 3) := by
  refine .of_primary (fun behind _ => h.nested h' behind) fun behind => .inl ?_
  rw [words, Adql.enclosed, List.cons_append, List.append_assoc, List.singleton_append]
  exact (h.unclosed _).query_stalls rfl

/-- A join is read if its left table is, and its right one is read in front of what matches the
rows. -/
theorem join (hleft : left.IsRead tree allowance) (product : natural = true → kind ≠ .cross)
    (hright : ∀ behind, firstKind behind ∈ afterTable →
      Reads (apply true allowance .tablePrimary)
        (enclosedIf right.isJoin (right.words true) ++ behind) tree' behind)
    (matched : ∀ behind, firstKind behind ∈ afterTable →
      Reads (joinConstraint (apply true allowance) (natural || kind = .cross))
        (constraint.words true ++ behind) constraint' behind) :
    (TableRef.join left kind natural right constraint).IsRead
      (.join tree kind natural tree' constraint') allowance := by
  refine ⟨(fun single => by cases single), fun behind follows => ?_, fun behind => ?_⟩
  · have step := reads_joinStep tree product (hright _ (constraint.firstKind_words follows))
      (matched behind follows)
    have shape : wordIf .NATURAL natural ++ (kind.words ++
        (enclosedIf right.isJoin (right.words true) ++ (constraint.words true ++ behind))) =
        (wordIf .NATURAL natural ++ (kind.words ++
          (enclosedIf right.isJoin (right.words true) ++ constraint.words true))) ++ behind := by
      simp
    have starts : firstKind (wordIf .NATURAL natural ++ (kind.words ++
        (enclosedIf right.isJoin (right.words true) ++ (constraint.words true ++ behind)))) ∈
        afterTable := firstKind_join _
    rw [shape] at step starts
    rw [words, List.append_assoc]
    refine .snoc ?_ (hleft.chain _ starts) step
    cases kind <;> simp [JoinKind.words]
  · rw [words, List.append_assoc]
    exact hleft.unclosed _

end IsRead

/-- The words of a named table are no query. -/
theorem IsNamed.unclosed (h : table.IsNamed) (behind : List Word) :
    Unclosed (allowance + 3) (table.words true ++ behind) := by
  have plain {kind : TokenKind} (named : kind.isIdentifier = true) :
      startsQuery kind ≠ true ∧ kind ≠ .leftParen := by
    cases kind with
    | identifier | delimitedIdentifier => decide
    | _ => cases named
  obtain ⟨word, paren⟩ := plain (h.firstKind behind)
  exact .inl (query_stalls allowance word paren)

/-- Named tables that are joined are read, wherever rules may nest deep enough, with a node for each
pair of parentheses that the printer adds. -/
theorem OfJoins.isRead (h : table.OfJoins) : ∃ depth, ∀ allowance, depth ≤ allowance →
    table.IsRead table.parenthesized allowance := by
  induction h with
  | @named table isNamed =>
    refine ⟨3, fun allowance enough => ?_⟩
    obtain ⟨less, rfl⟩ : ∃ less, allowance = less + 3 := ⟨allowance - 3, by omega⟩
    have same : table.parenthesized = table := by
      cases isNamed with
      | mk => rfl
    rw [same]
    exact .of_primary (fun _ => isNamed.reads) isNamed.unclosed
  | @nested inner _ ih =>
    obtain ⟨depth, isRead⟩ := ih
    refine ⟨depth + 3, fun allowance enough => ?_⟩
    obtain ⟨less, rfl⟩ : ∃ less, allowance = less + 3 := ⟨allowance - 3, by omega⟩
    exact (isRead less (by omega)).enclosed (isRead (less + 1) (by omega))
  | @join left right kind natural constraint _ _ matched ihLeft ihRight =>
    obtain ⟨depthLeft, readLeft⟩ := ihLeft
    obtain ⟨depthRight, readRight⟩ := ihRight
    refine ⟨max depthLeft depthRight + 3, fun allowance enough => ?_⟩
    obtain ⟨less, rfl⟩ : ∃ less, allowance = less + 3 := ⟨allowance - 3, by omega⟩
    have ends : ∀ kind ∈ afterTable, endsExpression kind = true := by decide
    refine (readLeft (less + 3) (by omega)).join matched.ne_cross (fun behind follows => ?_)
      fun behind follows => matched.reads (ends _ follows)
    cases needed : right.isJoin with
    | false => exact (readRight (less + 3) (by omega)).primary needed behind follows
    | true => exact (readRight less (by omega)).nested (readRight (less + 1) (by omega)) behind

end

end TableRef

end Adql
