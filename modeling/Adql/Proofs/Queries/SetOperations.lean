import Adql.Proofs.Queries.Selections

/-!
# Printed set operations

Selections that are joined by set operators, in any shape.  The printer puts a left operand that binds
looser in parentheses, and a right operand that does not bind tighter; a pair of parentheses is read
as a node of its own (`QueryBody.parenthesized`).  A body without parentheses around it is read as an
operand, as a chain of intersections or as a chain of unions, as far as its outermost operator allows
(`QueryBody.IsRead`), so its left operand is the chain that its operator goes on with
(`QueryBody.OfSelections.isRead`).
-/

namespace Adql

open Adql.Parser Adql.Grammar

namespace QueryBody

/-! ### Trees -/

/-- Selections that are joined by set operators, in any shape, with or without parentheses. -/
inductive OfSelections : QueryBody → Prop
  | spec {spec : QuerySpec} : spec.IsSelection → OfSelections (.spec spec)
  | setOperation (op : SetOperator) (all : Bool) {left right : QueryBody} : OfSelections left →
      OfSelections right → OfSelections (.setOperation op all left right)
  | nested {body : QueryBody} : OfSelections body → OfSelections (.nested ⟨[], body, [], none⟩)

/-- The body without the nodes for parentheses around nothing but a body. -/
def unnested : QueryBody → QueryBody
  | .spec selection => .spec selection
  | .setOperation op all left right => .setOperation op all left.unnested right.unnested
  | .nested ⟨[], body, [], none⟩ => body.unnested
  | .nested ⟨tables, body, keys, offset⟩ => .nested ⟨tables, body.unnested, keys, offset⟩

/-- The body, in parentheses if need be. -/
def nestedIf (needed : Bool) (body : QueryBody) : QueryBody :=
  if needed then .nested ⟨[], body, [], none⟩ else body

/-- The body with a node for each pair of parentheses that the printer adds. -/
def parenthesized : QueryBody → QueryBody
  | .spec selection => .spec selection
  | .setOperation op all left right =>
    .setOperation op all (left.parenthesized.nestedIf (left.looserThan op.level))
      (right.parenthesized.nestedIf (right.looserThan (op.level + 1)))
  | .nested ⟨tables, body, keys, offset⟩ => .nested ⟨tables, body.parenthesized, keys, offset⟩

/-- Parentheses around nothing but a body are no part of the body. -/
@[simp] theorem unnested_nestedIf (needed : Bool) (body : QueryBody) :
    (body.nestedIf needed).unnested = body.unnested := by
  cases needed <;> simp [nestedIf, unnested]

/-- The words of a body in parentheses. -/
theorem words_nested (body : QueryBody) :
    (QueryBody.nested ⟨[], body, [], none⟩).words true = enclosed (body.words true) := by
  simp [QueryBody.words, Query.words, CommonTable.wordsList, SortKey.wordsList, listClauseWords,
    offsetWords, clauseWords]

namespace OfSelections

variable {body : QueryBody}

/-- The added parentheses are around nothing but bodies. -/
theorem unnested_parenthesized (h : body.OfSelections) :
    body.parenthesized.unnested = body.unnested := by
  induction h with
  | spec => rfl
  | setOperation op all _ _ ihLeft ihRight => simp [parenthesized, unnested, ihLeft, ihRight]
  | nested _ ih => simp [parenthesized, unnested, ih]

/-- The words of selections can be written. -/
theorem spelled (h : body.OfSelections) : ∀ word ∈ body.words true, word.Spelled := by
  induction h with
  | spec selection => exact selection.spelled
  | setOperation op all _ _ ihLeft ihRight =>
    exact List.forall_mem_append.mpr ⟨spelled_enclosedIf _ ihLeft, List.forall_mem_cons.mpr
      ⟨op.keyword.spelled_word, List.forall_mem_append.mpr
        ⟨spelled_wordIf .ALL all, spelled_enclosedIf _ ihRight⟩⟩⟩
  | nested _ ih =>
    rw [words_nested]
    exact spelled_enclosed ih

/-- The words of selections start with `SELECT` or a parenthesis. -/
theorem firstKind_words (h : body.OfSelections) (behind : List Word) :
    firstKind (body.words true ++ behind) ∈ [.keyword .SELECT, .leftParen] := by
  induction h generalizing behind with
  | spec selection =>
    cases selection with
    | mk => exact List.mem_cons_self
  | @setOperation op all left right _ _ ihLeft _ =>
    rw [QueryBody.words, List.append_assoc]
    cases left.looserThan op.level with
    | false => exact ihLeft _
    | true => exact List.mem_cons_of_mem _ List.mem_cons_self
  | nested => exact List.mem_cons_of_mem _ List.mem_cons_self

/-- Selections that are joined by set operators have no sort keys and no offset to give away. -/
theorem assembleQuery (h : body.OfSelections) :
    assembleQuery [] body.parenthesized [] none = ⟨[], body.parenthesized, [], none⟩ := by
  cases h with
  | spec selection =>
    cases selection with
    | mk => rfl
  | setOperation | nested => rfl

end OfSelections

/-! ### Reading -/

/-- Nothing binds looser than a union. -/
theorem looserThan_union (body : QueryBody) : body.looserThan SetOperator.union.level = false := by
  cases body with
  | setOperation op => cases op <;> rfl
  | spec | nested => rfl

/-- The operands of `UNION` and `EXCEPT`: chains of intersections. -/
def intersections (allowance : Nat) : Parser QueryBody :=
  setOperations (apply true allowance .queryTerm) SetOperator.intersect.level

/-- Wherever the body may stand without parentheses around it, its words are read as a tree: as an
operand of `INTERSECT`, as the beginning of a chain of intersections, and as the beginning of a chain of
unions. -/
structure IsRead (body tree : QueryBody) (allowance : Nat) : Prop where
  /-- A body that is no set operation is read as an operand. -/
  term : body.looserThan (SetOperator.intersect.level + 1) = false → ∀ behind,
    firstKind behind ∈ afterTerm →
      Reads (apply true allowance .queryTerm) (body.words true ++ behind) tree behind
  /-- A body that is no union is read as the beginning of a chain of intersections. -/
  intersection : body.looserThan SetOperator.intersect.level = false → ∀ behind,
    firstKind behind ∈ afterTerm →
      Chains (apply true allowance .queryTerm)
        (setStep (apply true allowance .queryTerm) SetOperator.intersect.level)
        (body.words true ++ behind) tree behind
  /-- A body is read as the beginning of a chain of unions, if no intersection follows. -/
  union : ∀ behind, firstKind behind ∈ afterTerm → firstKind behind ≠ .keyword .INTERSECT →
    Chains (intersections allowance) (setStep (intersections allowance) SetOperator.union.level)
      (body.words true ++ behind) tree behind

section

variable {body left right tree tree' : QueryBody} {op : SetOperator} {all : Bool}
  {depth allowance : Nat} {words behind : List Word}

/-- A chain of intersections ends where no intersection follows. -/
theorem reads_intersections (other : firstKind behind ≠ .keyword .INTERSECT)
    (h : Chains (apply true allowance .queryTerm)
      (setStep (apply true allowance .queryTerm) SetOperator.intersect.level) words body behind) :
    Reads (intersections allowance) words body behind := by
  refine h.reads (reads_setStep_done body fun op hop => ?_)
  cases op with
  | union | except => decide
  | intersect => exact absurd (setOperatorOf?_eq_some.mp hop) other

/-- A chain goes on with a set operator of its level and a right operand. -/
theorem chains_setOperation {operand : Parser QueryBody} {front back : List Word}
    (hleft : Chains operand (setStep operand op.level)
      (front ++ op.keyword.word :: ((wordIf .ALL all ++ back) ++ behind)) left
      (op.keyword.word :: ((wordIf .ALL all ++ back) ++ behind)))
    (other : firstKind (back ++ behind) ≠ .keyword .ALL)
    (hright : Reads operand (back ++ behind) right behind) :
    Chains operand (setStep operand op.level)
      ((front ++ op.keyword.word :: (wordIf .ALL all ++ back)) ++ behind)
      (.setOperation op all left right) behind := by
  rw [List.append_assoc]
  refine hleft.snoc (List.cons_ne_nil _ _) ?_
  rw [List.cons_append, List.append_assoc]
  exact reads_setStep (Nat.le_refl _) all left right other hright

namespace IsRead

/-- What is read as an operand is read wherever it may stand. -/
theorem of_term (h : ∀ behind, firstKind behind ∈ afterTerm →
    Reads (apply true allowance .queryTerm) (body.words true ++ behind) tree behind) :
    body.IsRead tree allowance where
  term _ := h
  intersection _ behind follows := .of_reads (h behind follows)
  union behind follows other := .of_reads (reads_intersections other (.of_reads (h behind follows)))

/-- An intersection is a chain of intersections if its left operand is one. -/
theorem intersect
    (hleft : ∀ behind, firstKind behind ∈ afterTerm → Chains (apply true allowance .queryTerm)
      (setStep (apply true allowance .queryTerm) SetOperator.intersect.level)
      (enclosedIf (left.looserThan SetOperator.intersect.level) (left.words true) ++ behind) tree
      behind)
    (other : ∀ behind, firstKind (enclosedIf
      (right.looserThan (SetOperator.intersect.level + 1)) (right.words true) ++ behind) ≠
        .keyword .ALL)
    (hright : ∀ behind, firstKind behind ∈ afterTerm → Reads (apply true allowance .queryTerm)
      (enclosedIf (right.looserThan (SetOperator.intersect.level + 1)) (right.words true) ++ behind)
      tree' behind) :
    (QueryBody.setOperation .intersect all left right).IsRead
      (.setOperation .intersect all tree tree') allowance := by
  have chain (behind : List Word) (follows : firstKind behind ∈ afterTerm) :
      Chains (apply true allowance .queryTerm)
        (setStep (apply true allowance .queryTerm) SetOperator.intersect.level)
        ((QueryBody.setOperation .intersect all left right).words true ++ behind)
        (.setOperation .intersect all tree tree') behind :=
    chains_setOperation (hleft _ (show TokenKind.keyword .INTERSECT ∈ afterTerm by decide))
      (other behind) (hright behind follows)
  exact ⟨nofun, fun _ => chain, fun behind follows other =>
    .of_reads (reads_intersections other (chain behind follows))⟩

/-- A union or a difference is a chain of unions if its left operand is read, and its right one as a
chain of intersections. -/
theorem unite (loosest : op.level = SetOperator.union.level) (hleft : left.IsRead tree allowance)
    (other : ∀ behind, firstKind (enclosedIf
      (right.looserThan (SetOperator.union.level + 1)) (right.words true) ++ behind) ≠
        .keyword .ALL)
    (hright : ∀ behind, firstKind behind ∈ afterTerm → Chains (apply true allowance .queryTerm)
      (setStep (apply true allowance .queryTerm) SetOperator.intersect.level)
      (enclosedIf (right.looserThan (SetOperator.union.level + 1)) (right.words true) ++ behind)
      tree' behind) :
    (QueryBody.setOperation op all left right).IsRead (.setOperation op all tree tree')
      allowance := by
  have operator : .keyword op.keyword ∈ afterTerm ∧
      TokenKind.keyword op.keyword ≠ .keyword .INTERSECT := by
    cases op with
    | union | except => exact ⟨by decide, nofun⟩
    | intersect => cases loosest
  have bare : left.looserThan op.level = false := loosest ▸ left.looserThan_union
  have chain (behind : List Word) (follows : firstKind behind ∈ afterTerm)
      (stops : firstKind behind ≠ .keyword .INTERSECT) :
      Chains (intersections allowance) (setStep (intersections allowance) op.level)
        ((QueryBody.setOperation op all left right).words true ++ behind)
        (.setOperation op all tree tree') behind := by
    refine chains_setOperation ?_ (loosest ▸ other behind) ?_
    · rw [bare, loosest]
      exact hleft.union _ operator.1 operator.2
    · rw [loosest]
      exact reads_intersections stops (hright behind follows)
  refine ⟨?_, ?_, loosest ▸ chain⟩
  all_goals
    rw [looserThan, loosest]
    nofun

/-- A body that is read is read up to its end. -/
theorem queryBody (h : body.IsRead tree allowance) (ends : firstKind behind ∈ afterBody) :
    Reads (apply true (allowance + 1) .queryBody) (body.words true ++ behind) tree behind := by
  have ahead : ∀ kind ∈ afterBody, kind ∈ afterTerm ∧ kind ≠ .keyword .INTERSECT ∧
      setOperatorOf? kind = none := by decide
  obtain ⟨follows, other, none⟩ := ahead _ ends
  refine .apply ((h.union behind follows other).reads (reads_setStep_done _ ?_))
  rw [none]
  nofun

/-- A body that is read is read in parentheses as an operand, whatever stands behind it. -/
theorem nested (h : body.IsRead body.parenthesized allowance) (selections : body.OfSelections)
    (behind : List Word) :
    Reads (apply true (allowance + 3) .queryTerm) (enclosed (body.words true) ++ behind)
      (.nested ⟨[], body.parenthesized, [], none⟩) behind := by
  have starts := selections.firstKind_words (TokenKind.rightParen.word :: behind)
  have noWith : firstKind (body.words true ++ TokenKind.rightParen.word :: behind) ≠
      .keyword .WITH := by
    generalize firstKind (body.words true ++ TokenKind.rightParen.word :: behind) = kind at starts
    revert kind
    decide
  have inner : Reads (apply true (allowance + 1) .queryBody)
      (body.words true ++ TokenKind.rightParen.word :: behind) body.parenthesized
      (TokenKind.rightParen.word :: behind) :=
    h.queryBody (show TokenKind.rightParen ∈ afterBody by decide)
  have query : Reads (apply true (allowance + 2) .query)
      (body.words true ++ TokenKind.rightParen.word :: behind) ⟨[], body.parenthesized, [], none⟩
      (TokenKind.rightParen.word :: behind) := by
    rw [← selections.assembleQuery]
    exact reads_query (show TokenKind.rightParen ∉ afterOperand by decide) (.afterWord_none noWith)
      inner
  rw [enclosed, List.cons_append, List.append_assoc, List.singleton_append]
  exact reads_nestedTerm rfl rfl query

end IsRead

/-- Selections that are joined by set operators are read wherever rules may nest deep enough, with a node
for each pair of parentheses that the printer adds. -/
structure IsOperand (body : QueryBody) (depth : Nat) : Prop where
  /-- The body is joined from selections. -/
  selections : body.OfSelections
  /-- Where rules may nest deep enough, the body is read. -/
  isRead : ∀ allowance, depth ≤ allowance → body.IsRead body.parenthesized allowance

namespace IsOperand

/-- A body is read as an operand of `INTERSECT`, in parentheses if it is a set operation. -/
theorem term (h : body.IsOperand depth) (enough : depth + 3 ≤ allowance)
    (follows : firstKind behind ∈ afterTerm) :
    Reads (apply true allowance .queryTerm)
      (enclosedIf (body.looserThan (SetOperator.intersect.level + 1)) (body.words true) ++ behind)
      (body.parenthesized.nestedIf (body.looserThan (SetOperator.intersect.level + 1))) behind := by
  cases needed : body.looserThan (SetOperator.intersect.level + 1) with
  | false => exact (h.isRead allowance (by omega)).term needed behind follows
  | true =>
    obtain ⟨less, rfl⟩ : ∃ less, allowance = less + 3 := ⟨allowance - 3, by omega⟩
    exact (h.isRead less (by omega)).nested h.selections behind

/-- A body is read as the beginning of a chain of intersections, in parentheses if it is a union. -/
theorem intersection (h : body.IsOperand depth) (enough : depth + 3 ≤ allowance)
    (follows : firstKind behind ∈ afterTerm) :
    Chains (apply true allowance .queryTerm)
      (setStep (apply true allowance .queryTerm) SetOperator.intersect.level)
      (enclosedIf (body.looserThan SetOperator.intersect.level) (body.words true) ++ behind)
      (body.parenthesized.nestedIf (body.looserThan SetOperator.intersect.level)) behind := by
  cases needed : body.looserThan SetOperator.intersect.level with
  | false => exact (h.isRead allowance (by omega)).intersection needed behind follows
  | true =>
    obtain ⟨less, rfl⟩ : ∃ less, allowance = less + 3 := ⟨allowance - 3, by omega⟩
    exact .of_reads ((h.isRead less (by omega)).nested h.selections behind)

/-- The words of a body that may stand in parentheses do not start with `ALL`. -/
theorem firstKind_ne_all (h : body.IsOperand depth) (needed : Bool) (behind : List Word) :
    firstKind (enclosedIf needed (body.words true) ++ behind) ≠ .keyword .ALL := by
  cases needed with
  | true => nofun
  | false =>
    have starts := h.selections.firstKind_words behind
    intro all
    rw [show enclosedIf false (body.words true) = body.words true from rfl] at all
    rw [all] at starts
    exact absurd starts (by decide)

end IsOperand

/-- Selections that are joined by set operators are read, wherever rules may nest deep enough. -/
theorem OfSelections.isOperand (h : body.OfSelections) : ∃ depth, body.IsOperand depth := by
  induction h with
  | @spec selection isSelection =>
    refine ⟨7, .spec isSelection, fun allowance enough => .of_term fun behind follows => ?_⟩
    obtain ⟨less, rfl⟩ : ∃ less, allowance = less + 7 := ⟨allowance - 7, by omega⟩
    have starts : firstKind (selection.words true ++ behind) = .keyword .SELECT := by
      cases isSelection with
      | mk => rfl
    exact .apply ((Reads.check_true starts).bind ((isSelection.reads follows).bind (.pure _ _)))
  | @nested body selections ih =>
    obtain ⟨depth, operand⟩ := ih
    refine ⟨depth + 3, .nested selections, fun allowance enough => .of_term fun behind _ => ?_⟩
    obtain ⟨less, rfl⟩ : ∃ less, allowance = less + 3 := ⟨allowance - 3, by omega⟩
    rw [words_nested]
    exact (operand.isRead less (by omega)).nested selections behind
  | @setOperation op all left right selectionsLeft selectionsRight ihLeft ihRight =>
    obtain ⟨depthLeft, _, readLeft⟩ := ihLeft
    obtain ⟨depthRight, _, readRight⟩ := ihRight
    have hleft : left.IsOperand (max depthLeft depthRight) :=
      ⟨selectionsLeft, fun allowance enough => readLeft allowance (by omega)⟩
    have hright : right.IsOperand (max depthLeft depthRight) :=
      ⟨selectionsRight, fun allowance enough => readRight allowance (by omega)⟩
    refine ⟨max depthLeft depthRight + 3, .setOperation op all selectionsLeft selectionsRight,
      fun allowance enough => ?_⟩
    cases op with
    | intersect =>
      exact .intersect (fun _ => hleft.intersection enough) (hright.firstKind_ne_all _)
        fun _ => hright.term enough
    | union =>
      rw [parenthesized, left.looserThan_union]
      exact .unite rfl (hleft.isRead allowance (by omega)) (hright.firstKind_ne_all _)
        fun _ => hright.intersection enough
    | except =>
      rw [parenthesized, show left.looserThan SetOperator.except.level = false from
        left.looserThan_union]
      exact .unite rfl (hleft.isRead allowance (by omega)) (hright.firstKind_ne_all _)
        fun _ => hright.intersection enough

end

end QueryBody

end Adql
