import Adql.Proofs.RoundTrip.Words

/-!
# Added parentheses

The words of a tree with the parentheses that the printer adds, compared with the words without
them: there are as many more opening parentheses as `Query.addedParentheses` says, no other word is
added, and where nothing is added both are the same (`Query.adds`).
-/

namespace Adql

/-- The number of opening parentheses among words. -/
def openings (words : List Word) : Nat :=
  words.countP fun word => word.kind = .leftParen

/-- No words have no opening parentheses. -/
@[simp] theorem openings_nil : openings [] = 0 := rfl

/-- The first word may be an opening parenthesis. -/
@[simp] theorem openings_cons (word : Word) (words : List Word) :
    openings (word :: words) = openings words + (decide (word.kind = .leftParen)).toNat := by
  by_cases h : word.kind = .leftParen <;> simp [openings, h]

/-- Opening parentheses add up. -/
@[simp] theorem openings_append (first second : List Word) :
    openings (first ++ second) = openings first + openings second :=
  List.countP_append ..

/-- Printed words are bare words with so many pairs of parentheses added. -/
structure Adds (count : Nat) (bare printed : List Word) : Prop where
  /-- There are so many more opening parentheses. -/
  openings_eq : openings printed = openings bare + count
  /-- If none are added, the words are the same. -/
  eq : count = 0 → printed = bare
  /-- Nothing else is added. -/
  mem : ∀ word ∈ printed, word ∈ bare ∨ word = TokenKind.leftParen.word ∨
    word = TokenKind.rightParen.word

/-- The same with a list of rows of words. -/
inductive AddsAll : Nat → List (List Word) → List (List Word) → Prop
  | nil : AddsAll 0 [] []
  | cons {count counts bare printed bares printeds} : Adds count bare printed →
      AddsAll counts bares printeds → AddsAll (count + counts) (bare :: bares) (printed :: printeds)

namespace Adds

variable {count count' : Nat} {bare bare' printed printed' : List Word}

/-- Nothing is added to words that stay as they are. -/
theorem refl (words : List Word) : Adds 0 words words where
  openings_eq := rfl
  eq _ := rfl
  mem _ h := .inl h

/-- What is added to two rows is added to both of them together. -/
theorem append (h : Adds count bare printed) (h' : Adds count' bare' printed') :
    Adds (count + count') (bare ++ bare') (printed ++ printed') where
  openings_eq := by
    rw [openings_append, openings_append, h.openings_eq, h'.openings_eq]
    omega
  eq zero := by
    rw [h.eq (by omega), h'.eq (by omega)]
  mem word hword := by
    rcases List.mem_append.mp hword with hword | hword
    · exact (h.mem word hword).imp_left (List.mem_append_left _)
    · exact (h'.mem word hword).imp_left (List.mem_append_right _)

/-- A word in front changes nothing. -/
theorem cons (word : Word) (h : Adds count bare printed) :
    Adds count (word :: bare) (word :: printed) := by
  rw [← Nat.zero_add count]
  exact (refl [word]).append h

/-- Words in front change nothing. -/
theorem front (words : List Word) (h : Adds count bare printed) :
    Adds count (words ++ bare) (words ++ printed) := by
  rw [← Nat.zero_add count]
  exact (refl words).append h

/-- Words behind change nothing. -/
theorem back (words : List Word) (h : Adds count bare printed) :
    Adds count (bare ++ words) (printed ++ words) :=
  h.append (refl words)

/-- Parentheses around both change nothing. -/
theorem enclosed (h : Adds count bare printed) :
    Adds count (enclosed bare) (enclosed printed) :=
  (h.back _).cons _

/-- Parentheses are added where they are needed. -/
theorem enclosedIf (needed : Bool) (h : Adds count bare printed) :
    Adds (count + needed.toNat) (enclosedIf (false && needed) bare)
      (enclosedIf (true && needed) printed) := by
  cases needed with
  | false => exact h
  | true =>
    refine ⟨?_, fun zero => absurd zero (Nat.succ_ne_zero _), fun word hword => ?_⟩
    · simp [Adql.enclosedIf, Adql.enclosed, h.openings_eq, TokenKind.word, Nat.add_assoc]
    · have hword : word ∈ TokenKind.leftParen.word :: (printed ++ [TokenKind.rightParen.word]) :=
        hword
      rcases List.mem_cons.mp hword with rfl | hword
      · exact .inr (.inl rfl)
      · rcases List.mem_append.mp hword with hword | hword
        · exact h.mem word hword
        · exact .inr (.inr (List.mem_singleton.mp hword))

end Adds

namespace AddsAll

variable {count : Nat} {bares printeds : List (List Word)}

/-- What is added to rows is added to the rows with separators between them. -/
theorem separated (separator : TokenKind) (h : AddsAll count bares printeds) :
    Adds count (separated separator bares) (separated separator printeds) := by
  induction h with
  | nil => exact .refl []
  | cons first rest ih =>
    cases rest with
    | nil => exact first
    | cons second rest => exact first.append (ih.cons _)

/-- What is added to rows is added to the clause that they make up. -/
theorem clause (front : List Word) (h : AddsAll count bares printeds) :
    Adds count (listClauseWords front bares) (listClauseWords front printeds) := by
  have rows := h.separated .comma
  cases h with
  | nil => exact .refl []
  | cons first rest => exact rows.front front

end AddsAll

/-! ### Trees -/

mutual

/-- What is added to an expression. -/
theorem Expr.adds : (expr : Expr) →
    Adds expr.addedParentheses (expr.words false) (expr.words true)
  | .literal _ => .refl _
  | .column _ => .refl _
  | .wildcard _ => .refl _
  | .binary left _ right => (left.adds.enclosedIf _).append ((right.adds.enclosedIf _).cons _)
  | .unary _ operand => (operand.adds.enclosedIf _).cons _
  | .call _ arguments _ =>
    ((((Expr.addsList arguments).separated .comma).front _).enclosed).cons _
  | .geometry _ arguments => (((Expr.addsList arguments).separated .comma).enclosed).cons _
  | .isNull operand _ => (operand.adds.enclosedIf _).back _
  | .between operand low high _ =>
    (operand.adds.enclosedIf _).append <| .front _ <| .cons _ <|
      (low.adds.enclosedIf _).append ((high.adds.enclosedIf _).cons _)
  | .inList operand items _ =>
    (operand.adds.enclosedIf _).append <| .front _ <| .cons _ <|
      ((Expr.addsList items).separated .comma).enclosed
  | .inQuery operand query _ =>
    (operand.adds.enclosedIf _).append <| .front _ <| .cons _ query.adds.enclosed
  | .like operand pattern escape _ _ =>
    (operand.adds.enclosedIf _).append <| .front _ <| .cons _ <|
      (pattern.adds.enclosedIf _).append (Expr.addsEscape escape)
  | .exists query => query.adds.enclosed.cons _
  | .subquery query => query.adds.enclosed
  | .case subject branches otherwise =>
    .cons _ <| (Expr.addsSubject subject).append <| (Branch.addsList branches).append <|
      (Expr.addsClause .ELSE otherwise).back _
  | .cast operand _ => ((operand.adds.back _).enclosed).cons _
  | .paren inner => inner.adds.enclosed

/-- What is added to expressions. -/
theorem Expr.addsList : (exprs : List Expr) →
    AddsAll (Expr.addedList exprs) (Expr.wordsList false exprs) (Expr.wordsList true exprs)
  | [] => .nil
  | expr :: rest => .cons expr.adds (Expr.addsList rest)

/-- What is added to an expression that may be missing. -/
theorem Expr.addsSubject : (expr? : Option Expr) →
    Adds (Expr.addedOption expr?) ((Expr.wordsOption false expr?).getD [])
      ((Expr.wordsOption true expr?).getD [])
  | none => .refl []
  | some expr => expr.adds

/-- What is added to a clause with an expression. -/
theorem Expr.addsClause (keyword : Keyword) : (expr? : Option Expr) →
    Adds (Expr.addedOption expr?) (clauseWords keyword (Expr.wordsOption false expr?))
      (clauseWords keyword (Expr.wordsOption true expr?))
  | none => .refl []
  | some expr => expr.adds.cons _

/-- What is added to an escape clause. -/
theorem Expr.addsEscape : (expr? : Option Expr) →
    Adds (Expr.addedEscape expr?) (Expr.escapeWords false expr?) (Expr.escapeWords true expr?)
  | none => .refl []
  | some expr => (expr.adds.enclosedIf _).cons _

/-- What is added to the branches of a case distinction. -/
theorem Branch.addsList : (branches : List Branch) →
    Adds (Branch.addedList branches) (Branch.wordsList false branches)
      (Branch.wordsList true branches)
  | [] => .refl []
  | branch :: rest => branch.adds.append (Branch.addsList rest)

/-- What is added to a branch of a case distinction. -/
theorem Branch.adds : (branch : Branch) →
    Adds branch.addedParentheses (branch.words false) (branch.words true)
  | ⟨condition, result⟩ => .cons _ (condition.adds.append (result.adds.cons _))

/-- What is added to a sort key. -/
theorem SortKey.adds : (key : SortKey) →
    Adds key.addedParentheses (key.words false) (key.words true)
  | ⟨expr, _⟩ => expr.adds.back _

/-- What is added to sort keys. -/
theorem SortKey.addsList : (keys : List SortKey) →
    AddsAll (SortKey.addedList keys) (SortKey.wordsList false keys) (SortKey.wordsList true keys)
  | [] => .nil
  | key :: rest => .cons key.adds (SortKey.addsList rest)

/-- What is added to a select item. -/
theorem SelectItem.adds : (item : SelectItem) →
    Adds item.addedParentheses (item.words false) (item.words true)
  | ⟨expr, _⟩ => expr.adds.back _

/-- What is added to select items. -/
theorem SelectItem.addsList : (items : List SelectItem) →
    AddsAll (SelectItem.addedList items) (SelectItem.wordsList false items)
      (SelectItem.wordsList true items)
  | [] => .nil
  | item :: rest => .cons item.adds (SelectItem.addsList rest)

/-- What is added to the constraint of a join. -/
theorem JoinConstraint.adds : (constraint : JoinConstraint) →
    Adds constraint.addedParentheses (constraint.words false) (constraint.words true)
  | .on condition => condition.adds.cons _
  | .using _ => .refl _
  | .none => .refl []

/-- What is added to a table. -/
theorem TableRef.adds : (table : TableRef) →
    Adds table.addedParentheses (table.words false) (table.words true)
  | .table _ _ => .refl _
  | .subquery query _ => query.adds.enclosed.back _
  | .join left _ _ right constraint =>
    left.adds.append <| .front _ <| .front _ <| (right.adds.enclosedIf _).append constraint.adds
  | .nested inner => inner.adds.enclosed

/-- What is added to tables. -/
theorem TableRef.addsList : (tables : List TableRef) →
    AddsAll (TableRef.addedList tables) (TableRef.wordsList false tables)
      (TableRef.wordsList true tables)
  | [] => .nil
  | table :: rest => .cons table.adds (TableRef.addsList rest)

/-- What is added to a specification. -/
theorem QuerySpec.adds : (spec : QuerySpec) →
    Adds spec.addedParentheses (spec.words false) (spec.words true)
  | ⟨_, _, items, tables, condition, groups, having, keys, _⟩ =>
    .cons _ <| .front _ <| .front _ <| ((SelectItem.addsList items).separated .comma).append <|
      .cons _ <| ((TableRef.addsList tables).separated .comma).append <|
        (Expr.addsClause .WHERE condition).append <| ((Expr.addsList groups).clause _).append <|
          (Expr.addsClause .HAVING having).append <| ((SortKey.addsList keys).clause _).back _

/-- What is added to a query body. -/
theorem QueryBody.adds : (body : QueryBody) →
    Adds body.addedParentheses (body.words false) (body.words true)
  | .spec spec => spec.adds
  | .setOperation _ _ left right =>
    (left.adds.enclosedIf _).append <| .cons _ <| .front _ (right.adds.enclosedIf _)
  | .nested query => query.adds.enclosed

/-- What is added to a named query. -/
theorem CommonTable.adds : (table : CommonTable) →
    Adds table.addedParentheses (table.words false) (table.words true)
  | ⟨_, _, query⟩ => .cons _ <| .front _ <| query.adds.enclosed.cons _

/-- What is added to named queries. -/
theorem CommonTable.addsList : (tables : List CommonTable) →
    AddsAll (CommonTable.addedList tables) (CommonTable.wordsList false tables)
      (CommonTable.wordsList true tables)
  | [] => .nil
  | table :: rest => .cons table.adds (CommonTable.addsList rest)

/-- The printed words of a query are its bare words with the added parentheses. -/
theorem Query.adds : (query : Query) →
    Adds query.addedParentheses (query.words false) (query.words true)
  | ⟨commonTables, body, keys, _⟩ =>
    ((CommonTable.addsList commonTables).clause _).append <| body.adds.append <|
      ((SortKey.addsList keys).clause _).back _

end

end Adql
