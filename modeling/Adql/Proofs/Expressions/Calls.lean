import Adql.Proofs.Expressions.Restored
import Mathlib.Algebra.Order.BigOperators.Group.List
import Mathlib.Algebra.Order.Group.Nat
import Mathlib.Tactic.Choose

/-!
# Calls and case distinctions are restored

Expressions that hold any number of other expressions between words that end them: calls, membership
tests, case distinctions, and conversions.  They are restored if the expressions in them are.
-/

namespace Adql

open Adql.Parser Adql.Grammar

/-- May a call of the function have so many arguments? -/
structure Geometry.Admits (function : Geometry) (count : Nat) : Prop where
  /-- No argument is missing. -/
  enough : function.needsMore count = false
  /-- There are not too many arguments. -/
  le_most : ∀ most ∈ function.arity.2, count ≤ most

/-- A call of a geometry function has arguments. -/
theorem Geometry.Admits.pos {function : Geometry} {count : Nat} (h : function.Admits count) :
    0 < count := by
  rcases Nat.eq_zero_or_pos count with rfl | pos
  · have enough := h.enough
    cases function <;> cases enough
  · exact pos

/-- As long as there are fewer arguments than there may be, another one is taken. -/
theorem Geometry.Admits.acceptsMore {function : Geometry} {count fewer : Nat}
    (h : function.Admits count) (less : fewer < count) : function.acceptsMore fewer = true := by
  unfold Geometry.acceptsMore
  cases hmost : function.arity.2 with
  | none => rfl
  | some most => exact decide_eq_true (Nat.lt_of_lt_of_le less (h.le_most most hmost))

/-- A call that lacks an argument may take another one. -/
theorem Geometry.acceptsMore_of_needsMore {function : Geometry} {count : Nat}
    (h : function.needsMore count = true) :
    function.acceptsMore count = true := by
  rcases Bool.or_eq_true _ _ ▸ h with few | three
  · have few := of_decide_eq_true few
    cases function with
    | polygon => rfl
    | _ => exact decide_eq_true (Nat.lt_of_lt_of_le few (by decide))
  · obtain ⟨rfl, rfl⟩ : function = .distance ∧ count = 3 := by simpa using three
    rfl

/-- A call with as many arguments as it needs, of which it could take the last one, is complete. -/
theorem Geometry.admits_of_acceptsMore {function : Geometry} {count : Nat}
    (accepted : function.acceptsMore count = true)
    (enough : function.needsMore (count + 1) = false) : function.Admits (count + 1) := by
  refine ⟨enough, fun most hmost => ?_⟩
  rw [acceptsMore, Option.mem_def.mp hmost] at accepted
  exact of_decide_eq_true accepted

/-! ### Several expressions -/

/-- For each of the expressions, a tree like it that its words are read as wherever they end. -/
structure ReadsAll (alike : Expr → Expr → Prop) (exprs : List Expr) (tree : Expr → Expr)
    (depth : Nat) : Prop where
  /-- The trees are like the expressions. -/
  same : ∀ expr ∈ exprs, alike (tree expr) expr
  /-- Where rules may nest deep enough, the words are read as the trees. -/
  reads : ∀ expr ∈ exprs, ∀ allowance, depth ≤ allowance → ∀ behind,
    endsExpression (firstKind behind) = true →
      Reads (apply true allowance .expression) (expr.words true ++ behind) (tree expr) behind

variable {alike : Expr → Expr → Prop}

/-- Expressions that are restored are read. -/
theorem exists_readsAll {exprs : List Expr} (h : ∀ expr ∈ exprs, expr.Restored alike) :
    ∃ tree depth, ReadsAll alike exprs tree depth := by
  have : Nonempty Expr := ⟨.literal .null⟩
  choose! tree same depth reads using fun expr hexpr =>
    (h expr hexpr).expression (.inl (Nat.zero_le _)) fun _ => .of_ends
  refine ⟨tree, (exprs.map depth).sum, same, fun expr hexpr allowance enough => ?_⟩
  have bound := List.le_sum_of_mem (List.mem_map_of_mem (f := depth) hexpr)
  exact reads expr hexpr allowance (by omega)

namespace ReadsAll

variable {exprs arguments : List Expr} {tree : Expr → Expr} {depth allowance : Nat}
  {behind : List Word}

/-- Expressions with commas between them are read. -/
theorem expressions (h : ReadsAll alike exprs tree depth) (nonempty : exprs ≠ [])
    (enough : depth ≤ allowance) (ends : endsExpression (firstKind behind) = true)
    (comma : firstKind behind ≠ .comma) :
    Reads (expressions (apply true allowance))
      (separated .comma (Expr.wordsList true exprs) ++ behind) (exprs.map tree) behind := by
  rw [Expr.wordsList_eq_map]
  exact reads_oneOrMore (F := fun words => endsExpression (firstKind words) = true)
    (fun _ => rfl) ends comma nonempty fun expr hexpr => h.reads expr hexpr allowance enough

end ReadsAll

/-- Expressions with commas between them start as the first of them does. -/
theorem startsOperand_separated {exprs : List Expr} (h : ∀ expr ∈ exprs, expr.Restored alike)
    (nonempty : exprs ≠ []) : StartsOperand (separated .comma (Expr.wordsList true exprs)) := by
  cases exprs with
  | nil => exact absurd rfl nonempty
  | cons expr rest =>
    rw [Expr.wordsList, separated_cons]
    exact (h expr List.mem_cons_self).starts.append _

/-- The words of expressions with commas between them can be written. -/
theorem spelled_wordsList {exprs : List Expr} (h : ∀ expr ∈ exprs, expr.Restored alike) :
    ∀ word ∈ separated .comma (Expr.wordsList true exprs), word.Spelled := by
  rw [Expr.wordsList_eq_map]
  exact spelled_separated rfl fun expr hexpr => (h expr hexpr).spelled

namespace Expr

variable [Likeness alike] {operand : Expr} {items arguments : List Expr}

/-! ### Membership tests -/

/-- A membership test is restored. -/
theorem Restored.inList {negated : Bool} (hoperand : operand.Restored alike)
    (closed : operand.looserThan predicateLevel = false → predicateLevel < operand.openLevel)
    (hitems : ∀ item ∈ items, item.Restored alike) (nonempty : items ≠ []) :
    (Expr.inList operand items negated).Restored alike := by
  obtain ⟨treeItem, depth, readsItems⟩ := exists_readsAll hitems
  refine hoperand.negatable closed rfl rfl rfl rfl (spelled_enclosed (spelled_wordsList hitems))
    (fun tree => .inList tree (items.map treeItem) negated)
    (fun _ same => Likeness.inList same readsItems.same)
    depth fun allowance enough tree behind _ => ?_
  have closing : endsExpression (firstKind (TokenKind.rightParen.word :: behind)) = true := rfl
  have list := readsItems.expressions nonempty enough closing nofun
  have shape : enclosed (separated .comma (Expr.wordsList true items)) ++ behind =
      TokenKind.leftParen.word :: (separated .comma (Expr.wordsList true items) ++
        TokenKind.rightParen.word :: behind) := by
    simp [enclosed]
  rw [shape]
  refine (Reads.eat_false (firstKind_keyword_ne (by decide) _)).bind ((Reads.eat_true rfl).bind ?_)
  refine .expect_bind rfl ((Reads.currentKind _).bind ?_)
  rw [if_neg ((startsOperand_separated hitems nonempty).startsQuery_ne _)]
  exact list.bind (.expect_bind rfl (.pure _ _))

/-! ### Calls -/

/-- A name in front of a parenthesis is read as a call. -/
theorem reads_call {apply : (rule : Rule) → Parser rule.Result} {word : Word} {words behind : List Word}
    {value : Expr} (named : word.kind.isIdentifier = true)
    (h : Reads (namedCall apply word.token.geometryFunction?)
      (word :: TokenKind.leftParen.word :: words) value behind) :
    Reads (Grammar.operand true apply) (word :: TokenKind.leftParen.word :: words) value behind := by
  have call : Reads (nameOrCall apply) (word :: TokenKind.leftParen.word :: words) value behind := by
    rw [nameOrCall_eq]
    refine (Reads.nextKind _).bind ?_
    rw [if_pos (show secondKind (word :: TokenKind.leftParen.word :: words) = .leftParen from rfl)]
    refine Reads.current_bind fun token same => ?_
    rw [(Token.Alike.of_word (show token.word = word.token.word from same)).geometryFunction]
    exact h
  refine reads_operand ?_ ?_ ?_
  all_goals
    rw [firstKind_cons]
    cases hkind : word.kind with
    | identifier | delimitedIdentifier => first | exact call | decide
    | _ => rw [hkind] at named; cases named

/-- A call of a function that is no geometry function is restored. -/
theorem Restored.call {name : Identifier} (valid : name.Valid)
    (plain : name.word.token.geometryFunction? = none)
    (harguments : ∀ argument ∈ arguments, argument.Restored alike) :
    (Expr.call name arguments false).Restored alike := by
  obtain ⟨tree, depth, reads⟩ := exists_readsAll harguments
  have named := isIdentifier_of_identifier? valid.identifier?
  refine .of_operand (List.forall_mem_cons.mpr ⟨valid.spelled, spelled_enclosed
    (spelled_wordsList harguments)⟩) (.of_name named _)
    (.call name (arguments.map tree) false)
    (Likeness.call tree reads.same) (depth + 1)
    fun allowance enough behind _ => ?_
  obtain ⟨less, rfl⟩ : ∃ less, allowance = less + 1 := ⟨allowance - 1, by omega⟩
  have list : Reads (callArguments (apply true less))
      (separated .comma (Expr.wordsList true arguments) ++ TokenKind.rightParen.word :: behind)
      (arguments.map tree) (TokenKind.rightParen.word :: behind) := by
    by_cases empty : arguments = []
    · subst empty
      exact (Reads.check_true rfl).bind (.pure _ _)
    · have start := startsOperand_separated harguments empty
      exact (Reads.check_false (start.firstKind_ne _ (by decide))).bind
        (reads.expressions empty (by omega) rfl nofun)
  have shape : Expr.words true (.call name arguments false) ++ behind =
      name.word :: TokenKind.leftParen.word ::
        (separated .comma (Expr.wordsList true arguments) ++ TokenKind.rightParen.word :: behind) := by
    simp [Expr.words, enclosed, wordIf]
  rw [shape]
  refine reads_call named ?_
  rw [plain]
  exact .apply ((reads_identifier valid.identifier? _).bind (.expect_bind rfl
    (list.bind (.expect_bind rfl (.pure _ _)))))

/-- The name of an aggregate function starts an operand that is no literal. -/
theorem starts_aggregate {keyword : Keyword} (aggregates : keyword.isAggregate = true) :
    TokenKind.keyword keyword ∈ operandStart ∧ TokenKind.keyword keyword ∉ literalKinds ∧
      UnaryOp.ofToken? (.keyword keyword) = none ∧
      ∀ apply, primaryOf apply (.keyword keyword) = apply .aggregate := by
  cases keyword with
  | COUNT | SUM | AVG | MIN | MAX => exact ⟨by decide, by decide, rfl, fun _ => rfl⟩
  | _ => cases aggregates

/-- A call of an aggregate function is read if its argument is. -/
theorem reads_aggregate {keyword : Keyword} {allowance : Nat} {words behind : List Word}
    {argument : Expr} {distinct : Bool} (aggregates : keyword.isAggregate = true)
    (h : Reads (aggregateArgument (apply true allowance) keyword) words (argument, distinct)
      (TokenKind.rightParen.word :: behind)) :
    Reads (Grammar.operand true (apply true (allowance + 1)))
      (keyword.word :: TokenKind.leftParen.word :: words)
      (.call (.regular keyword.spelling) [argument] distinct) behind := by
  obtain ⟨_, noLiteral, noPrefix, primary⟩ := starts_aggregate aggregates
  refine reads_operand noPrefix noLiteral ?_
  rw [firstKind_cons, show keyword.word.kind = .keyword keyword from rfl, primary]
  refine .apply (Reads.current_bind fun token same => ?_)
  obtain ⟨_, _, _⟩ := token
  cases same
  exact Reads.advance_bind fun _ _ => .expect_bind rfl (h.bind (.expect_bind rfl (.pure _ _)))

/-- A call of an aggregate function is restored if its argument can be written and is read. -/
theorem Restored.of_aggregate {keyword : Keyword} {argument tree : Expr} {distinct : Bool}
    (aggregates : keyword.isAggregate = true)
    (spelled : ∀ word ∈ argument.words true, word.Spelled) (same : alike tree argument)
    (depth : Nat) (reads : ∀ allowance, depth ≤ allowance → ∀ behind,
      Reads (aggregateArgument (apply true allowance) keyword) (wordIf .DISTINCT distinct ++
        (argument.words true ++ TokenKind.rightParen.word :: behind)) (tree, distinct)
        (TokenKind.rightParen.word :: behind)) :
    (Expr.call (.regular keyword.spelling) [argument] distinct).Restored alike := by
  refine .of_operand ?_ ?_ (.call (.regular keyword.spelling) [tree] distinct)
    (Likeness.call (fun _ => tree) (List.forall_mem_singleton.mpr same)) (depth + 1)
    fun allowance enough behind _ => ?_
  · rw [words_aggregate]
    exact List.forall_mem_cons.mpr ⟨keyword.spelled_word, spelled_enclosed
      (List.forall_mem_append.mpr ⟨spelled_wordIf .DISTINCT distinct, spelled⟩)⟩
  · rw [words_aggregate]
    exact .of_word (starts_aggregate aggregates).1 _
  · obtain ⟨less, rfl⟩ : ∃ less, allowance = less + 1 := ⟨allowance - 1, by omega⟩
    have shape : keyword.word :: enclosed (wordIf .DISTINCT distinct ++ argument.words true) ++
        behind = keyword.word :: TokenKind.leftParen.word :: (wordIf .DISTINCT distinct ++
          (argument.words true ++ TokenKind.rightParen.word :: behind)) := by
      simp [enclosed]
    rw [words_aggregate, shape]
    exact reads_aggregate aggregates (reads less (by omega) behind)

/-- An aggregate of an expression is restored. -/
theorem Restored.aggregate {keyword : Keyword} {argument : Expr} {distinct : Bool}
    (aggregates : keyword.isAggregate = true) (hargument : argument.Restored alike) :
    (Expr.call (.regular keyword.spelling) [argument] distinct).Restored alike := by
  obtain ⟨tree, same, depth, reads⟩ :=
    hargument.expression (.inl (Nat.zero_le _)) fun _ => .of_ends
  refine .of_aggregate aggregates hargument.spelled same depth fun allowance enough behind => ?_
  have read := reads allowance enough (TokenKind.rightParen.word :: behind) rfl
  have start := hargument.starts
  have noStar : firstKind (wordIf .DISTINCT distinct ++
      (argument.words true ++ TokenKind.rightParen.word :: behind)) ≠ .star := by
    cases distinct with
    | false => exact start.firstKind_ne _ (by decide)
    | true => exact nofun
  have once : Reads (aggregatedExpression (apply true allowance)) (wordIf .DISTINCT distinct ++
      (argument.words true ++ TokenKind.rightParen.word :: behind)) (tree, distinct)
      (TokenKind.rightParen.word :: behind) := by
    cases distinct with
    | false =>
      exact (Reads.eat_false (start.firstKind_ne _ (by decide))).bind
        ((Reads.eat_false (start.firstKind_ne _ (by decide))).bind (read.bind (.pure _ _)))
    | true => exact (Reads.eat_true rfl).bind (read.bind (.pure _ _))
  rw [aggregateArgument_eq]
  refine Reads.bind (a := false) ?_ once
  split
  · exact .eat_false noStar
  · exact .pure _ _

/-- The number of rows is restored. -/
theorem Restored.countAll :
    (Expr.call (.regular Keyword.COUNT.spelling) [.wildcard []] false).Restored alike :=
  .of_aggregate rfl (List.forall_mem_singleton.mpr rfl) (Likeness.refl _) 0
    fun _ _ _ => (Reads.eat_true rfl).bind (.pure _ _)

/-! ### Geometry -/

/-- The arguments of a geometry function are read, if each of them is read in front of a comma and of a
closing parenthesis and there are as many as there may be. -/
theorem reads_geometryArguments {β : Type} {apply : (rule : Rule) → Parser rule.Result}
    {function : Geometry} {items : List β} {emit : β → List Word} {tree : β → Expr}
    {behind : List Word} (admits : function.Admits items.length)
    (reads : ∀ item ∈ items, ∀ kind rest, kind = .comma ∨ kind = .rightParen →
      Reads (apply .expression) (emit item ++ TokenKind.word kind :: rest) (tree item)
        (TokenKind.word kind :: rest)) :
    Reads (iterate (geometryStep apply function) #[])
      (separated .comma (items.map emit) ++ TokenKind.rightParen.word :: behind)
      (items.map tree).toArray behind := by
  have nonempty : items ≠ [] := List.ne_nil_of_length_pos admits.pos
  refine reads_iterate_separated nonempty (fun item hitem values words more => ?_)
    fun item hitem values last => ?_
  · refine (reads item hitem _ _ (.inl rfl)).bind ?_
    rw [← Array.size_push (tree item)] at more
    dsimp only
    split
    · exact .expect_bind rfl (.pure _ _)
    · rw [admits.acceptsMore more]
      exact (Reads.eat_true rfl).bind (.pure _ _)
  · refine (reads item hitem _ _ (.inr rfl)).bind ?_
    dsimp only
    rw [Array.size_push, last, admits.enough, if_neg Bool.false_ne_true]
    have closing : firstKind (TokenKind.rightParen.word :: behind) ≠ .comma := nofun
    have noMore : Reads (if function.acceptsMore items.length = true then eat .comma
        else pure false) (TokenKind.rightParen.word :: behind) false
        (TokenKind.rightParen.word :: behind) := by
      split
      · exact .eat_false closing
      · exact .pure _ _
    exact noMore.bind (.expect_bind rfl (.pure _ _))

/-- The name of a geometry function in front of its arguments is read as a call. -/
theorem reads_geometry {name : String} {function : Geometry} {allowance : Nat} {words : List Word}
    {values : List Expr} {behind : List Word} (named : Geometry.ofName? name = some function)
    (list : Reads (iterate (geometryStep (apply true allowance) function) #[]) words values.toArray
      behind) :
    Reads (Grammar.operand true (apply true (allowance + 1)))
      (⟨.identifier, name⟩ :: TokenKind.leftParen.word :: words) (.geometry function values)
      behind := by
  refine reads_call rfl ?_
  rw [show (Word.mk .identifier name).token.geometryFunction? = some function from named]
  exact .apply (Reads.advance_bind fun _ _ => .expect_bind rfl (list.bind (.pure _ behind)))

/-- A call of a geometry function with as many arguments as it may have is restored. -/
theorem Restored.geometry {function : Geometry} (admits : function.Admits arguments.length)
    (harguments : ∀ argument ∈ arguments, argument.Restored alike) :
    (Expr.geometry function arguments).Restored alike := by
  obtain ⟨tree, depth, reads⟩ := exists_readsAll harguments
  have spelled : Word.Spelled ⟨.identifier, function.spelling⟩ := function.isName_spelling
  refine .of_operand (List.forall_mem_cons.mpr ⟨spelled, spelled_enclosed
    (spelled_wordsList harguments)⟩) (.of_name rfl _)
    (.geometry function (arguments.map tree))
    (Likeness.geometry reads.same) (depth + 1)
    fun allowance enough behind _ => ?_
  obtain ⟨less, rfl⟩ : ∃ less, allowance = less + 1 := ⟨allowance - 1, by omega⟩
  have shape : Expr.words true (.geometry function arguments) ++ behind =
      ⟨.identifier, function.spelling⟩ :: TokenKind.leftParen.word ::
        (separated .comma (arguments.map (Expr.words true)) ++
          TokenKind.rightParen.word :: behind) := by
    simp [Expr.words, enclosed, Expr.wordsList_eq_map]
  rw [shape]
  refine reads_geometry function.ofName?_spelling (reads_geometryArguments admits ?_)
  intro argument hargument kind rest mark
  refine reads.reads argument hargument less (by omega) _ ?_
  rcases mark with rfl | rfl
  · rfl
  · rfl

end Expr

/-! ### Case distinctions -/

/-- The words of a branch behind its first word. -/
def Branch.inner (branch : Branch) : List Word :=
  branch.condition.words true ++ Keyword.THEN.word :: branch.result.words true

/-- The words of branches are the words of their inner parts behind the first word of a branch, with
that word between them. -/
theorem Branch.wordsList_eq {branches : List Branch} (nonempty : branches ≠ []) :
    Branch.wordsList true branches =
      Keyword.WHEN.word :: separated (.keyword .WHEN) (branches.map Branch.inner) := by
  have rows (branches : List Branch) : Branch.wordsList true branches =
      (branches.map Branch.inner).flatMap ((TokenKind.keyword .WHEN).word :: ·) := by
    induction branches with
    | nil => rfl
    | cons branch rest ih =>
      obtain ⟨condition, result⟩ := branch
      rw [Branch.wordsList, ih]
      rfl
  cases branches with
  | nil => exact absurd rfl nonempty
  | cons branch rest => rw [rows, List.map_cons, separated_cons]; rfl

/-- The conditions and results of branches. -/
def Branch.exprs (branches : List Branch) : List Expr :=
  branches.flatMap fun branch => [branch.condition, branch.result]

/-- The parts of a branch are among the parts of the branches. -/
theorem Branch.mem_exprs {branches : List Branch} {branch : Branch} (h : branch ∈ branches) :
    branch.condition ∈ exprs branches ∧ branch.result ∈ exprs branches :=
  ⟨List.mem_flatMap.mpr ⟨branch, h, by simp⟩, List.mem_flatMap.mpr ⟨branch, h, by simp⟩⟩

/-- The words of the inner parts of branches can be written. -/
theorem spelled_branches {branches : List Branch}
    (h : ∀ expr ∈ Branch.exprs branches, expr.Restored alike) :
    ∀ word ∈ Branch.wordsList true branches, word.Spelled := by
  induction branches with
  | nil => exact fun _ h => nomatch h
  | cons branch rest ih =>
    obtain ⟨condition, result⟩ := branch
    obtain ⟨hcondition, hrest⟩ := List.forall_mem_cons.mp h
    obtain ⟨hresult, hrest⟩ := List.forall_mem_cons.mp hrest
    refine List.forall_mem_append.mpr ⟨List.forall_mem_cons.mpr ⟨rfl, ?_⟩, ih hrest⟩
    exact List.forall_mem_append.mpr
      ⟨hcondition.spelled, List.forall_mem_cons.mpr ⟨rfl, hresult.spelled⟩⟩

namespace ReadsAll

variable {tree : Expr → Expr} {depth allowance : Nat} {behind : List Word}

/-- The branches of a case distinction are read behind the first word of the first branch, if no other
branch follows. -/
theorem branches {branches : List Branch} (h : ReadsAll alike (Branch.exprs branches) tree depth)
    (nonempty : branches ≠ []) (enough : depth ≤ allowance)
    (ends : endsExpression (firstKind behind) = true) (done : firstKind behind ≠ .keyword .WHEN) :
    Reads (iterate (branchStep (apply true allowance)) #[])
      (separated (.keyword .WHEN) (branches.map Branch.inner) ++ behind)
      (branches.map fun branch => ⟨tree branch.condition, tree branch.result⟩).toArray behind := by
  have step {branch : Branch} (hbranch : branch ∈ branches) (values : Array Branch)
      {behind rest : List Word} {result : Step (Array Branch)}
      (ends : endsExpression (firstKind behind) = true)
      (last : Reads (do
        if ← eatWord .WHEN then
          pure (Step.more (values.push ⟨tree branch.condition, tree branch.result⟩))
        else pure (Step.done (values.push ⟨tree branch.condition, tree branch.result⟩))) behind
        result rest) :
      Reads (branchStep (apply true allowance) values) (branch.inner ++ behind) result rest := by
    obtain ⟨hcondition, hresult⟩ := Branch.mem_exprs hbranch
    have first := h.reads _ hcondition allowance enough
      (Keyword.THEN.word :: (branch.result.words true ++ behind)) rfl
    have second := h.reads _ hresult allowance enough behind ends
    rw [Branch.inner, List.append_assoc, List.cons_append]
    exact first.bind ((Reads.expectWord _ _).bind (second.bind last))
  exact reads_iterate_separated nonempty
    (fun branch hbranch values words _ => step hbranch values rfl
      ((Reads.eat_true rfl).bind (.pure _ _)))
    fun branch hbranch values _ => step hbranch values ends ((Reads.eat_false done).bind (.pure _ _))

/-- The subject of a case distinction is read in front of its first branch. -/
theorem subject {subject : Option Expr} (h : ReadsAll alike subject.toList tree depth)
    (restored : ∀ expr ∈ subject, expr.Restored alike) (enough : depth ≤ allowance)
    (when : firstKind behind = .keyword .WHEN) :
    Reads (caseSubject (apply true allowance))
      ((Expr.wordsOption true subject).getD [] ++ behind) (subject.map tree) behind := by
  cases subject with
  | none => exact (Reads.check_true when).bind (.pure _ _)
  | some expr =>
    have start := (restored expr rfl).starts
    have read := h.reads expr (List.mem_singleton.mpr rfl) allowance enough behind (by rw [when]; rfl)
    exact (Reads.check_false (start.firstKind_ne _ (by decide))).bind (read.map some)

/-- The value of a case distinction outside its branches is read. -/
theorem otherwise {otherwise : Option Expr} (h : ReadsAll alike otherwise.toList tree depth)
    (enough : depth ≤ allowance) (behind : List Word) :
    Reads (afterWord .ELSE none (some <$> apply true allowance .expression))
      (clauseWords .ELSE (Expr.wordsOption true otherwise) ++ Keyword.END.word :: behind)
      (otherwise.map tree) (Keyword.END.word :: behind) := by
  cases otherwise with
  | none => exact .afterWord_none (firstKind_keyword_ne (by decide) _)
  | some expr =>
    have read := h.reads expr (List.mem_singleton.mpr rfl) allowance enough
      (Keyword.END.word :: behind) rfl
    exact .afterWord_some _ (read.map some)

end ReadsAll

namespace Expr

/-- A case distinction is restored. -/
theorem Restored.case [Likeness alike] {subject otherwise : Option Expr} {branches : List Branch}
    (hsubject : ∀ expr ∈ subject, expr.Restored alike) (nonempty : branches ≠ [])
    (hbranches : ∀ expr ∈ Branch.exprs branches, expr.Restored alike)
    (hotherwise : ∀ expr ∈ otherwise, expr.Restored alike) :
    (Expr.case subject branches otherwise).Restored alike := by
  have inSubject : ∀ expr ∈ subject.toList, expr.Restored alike := fun expr h =>
    hsubject expr (Option.mem_toList.mp h)
  have inOther : ∀ expr ∈ otherwise.toList, expr.Restored alike := fun expr h =>
    hotherwise expr (Option.mem_toList.mp h)
  obtain ⟨treeSubject, depthSubject, readsSubject⟩ := exists_readsAll inSubject
  obtain ⟨treeBranch, depthBranch, readsBranch⟩ := exists_readsAll hbranches
  obtain ⟨treeOther, depthOther, readsOther⟩ := exists_readsAll inOther
  have starts : TokenKind.keyword .CASE ∈ operandStart ∧ TokenKind.keyword .CASE ∉ literalKinds := by
    decide
  refine .of_operand ?_ (.of_word starts.1 _)
    (.case (subject.map treeSubject) (branches.map fun branch =>
      ⟨treeBranch branch.condition, treeBranch branch.result⟩) (otherwise.map treeOther))
    (Likeness.caseDistinction (fun expr h => readsSubject.same expr (Option.mem_toList.mpr h))
      (fun branch h => ⟨readsBranch.same _ (Branch.mem_exprs h).1,
        readsBranch.same _ (Branch.mem_exprs h).2⟩)
      fun expr h => readsOther.same expr (Option.mem_toList.mpr h))
    (max depthSubject (max depthBranch depthOther) + 1) fun allowance enough behind _ => ?_
  · refine List.forall_mem_cons.mpr ⟨rfl, List.forall_mem_append.mpr ⟨?_, List.forall_mem_append.mpr
      ⟨spelled_branches hbranches, List.forall_mem_append.mpr
        ⟨?_, List.forall_mem_singleton.mpr rfl⟩⟩⟩⟩
    · cases subject with
      | none => exact fun _ h => nomatch h
      | some expr => exact (hsubject expr rfl).spelled
    · cases otherwise with
      | none => exact fun _ h => nomatch h
      | some expr => exact List.forall_mem_cons.mpr ⟨rfl, (hotherwise expr rfl).spelled⟩
  · obtain ⟨less, rfl⟩ : ∃ less, allowance = less + 1 := ⟨allowance - 1, by omega⟩
    let tail := clauseWords .ELSE (Expr.wordsOption true otherwise) ++ Keyword.END.word :: behind
    have ends : endsExpression (firstKind tail) = true ∧ firstKind tail ≠ .keyword .WHEN := by
      cases otherwise <;> exact ⟨rfl, nofun⟩
    let others := separated (.keyword .WHEN) (branches.map Branch.inner) ++ tail
    have when : firstKind (Keyword.WHEN.word :: others) = .keyword .WHEN := rfl
    have list := readsBranch.branches nonempty (show depthBranch ≤ less by omega) ends.1 ends.2
    have front := readsSubject.subject hsubject (show depthSubject ≤ less by omega) when
    have shape : Expr.words true (.case subject branches otherwise) ++ behind =
        Keyword.CASE.word :: ((Expr.wordsOption true subject).getD [] ++
          Keyword.WHEN.word :: others) := by
      simp [Expr.words, Branch.wordsList_eq nonempty, others, tail]
    rw [shape]
    refine reads_operand rfl starts.2 (.apply ((Reads.expectWord _ _).bind (front.bind
      ((Reads.expectWord _ _).bind (list.bind ((readsOther.otherwise (by omega) behind).bind
        ((Reads.expectWord _ _).bind ?_)))))))
    exact .pure _ _

end Expr

/-! ### Conversions -/

/-- The number of a length is read as the length. -/
theorem length?_countWord (length : UInt32) :
    (countWord length.toNat).token.length? = some length := by
  have small := length.toNat_lt
  let value := Int64.ofInt length.toNat
  have exactly : value.toInt = length.toNat := by
    apply Int64.toInt_ofInt_of_le
    · simp
    · simp
      omega
  have read := integer?_countWord (show 0 ≤ value.toInt by omega)
  rw [exactly, Int.toNat_natCast] at read
  have bounds : 0 ≤ value.toInt ∧ value.toInt < UInt32.size := by
    rw [exactly]
    exact ⟨Int.natCast_nonneg _, by exact_mod_cast small⟩
  rw [Token.length?, read, Option.bind_some, if_pos bounds, exactly, Int.toNat_natCast]
  exact congrArg some length.ofNat_toNat

/-- The number of a length can be written. -/
theorem spelled_length (length : UInt32) : (countWord length.toNat).Spelled := by
  have small := length.toNat_lt
  exact ⟨length.toNat, by simp only [maxInteger]; omega, rfl⟩

/-- The words of a type can be written. -/
theorem DataType.spelled (target : DataType) : ∀ word ∈ target.words, word.Spelled := by
  have lengths (keyword : Keyword) (length : Option UInt32) :
      ∀ word ∈ lengthWords keyword length, word.Spelled := by
    cases length with
    | none => exact List.forall_mem_singleton.mpr keyword.spelled_word
    | some length => exact List.forall_mem_cons.mpr ⟨keyword.spelled_word,
        spelled_enclosed (List.forall_mem_singleton.mpr (spelled_length length))⟩
  cases target with
  | char length => exact lengths .CHAR length
  | varchar length => exact lengths .VARCHAR length
  | double => exact List.forall_mem_cons.mpr ⟨rfl, List.forall_mem_singleton.mpr rfl⟩
  | point => exact List.forall_mem_singleton.mpr (Geometry.isName_spelling .point)
  | circle => exact List.forall_mem_singleton.mpr (Geometry.isName_spelling .circle)
  | polygon => exact List.forall_mem_singleton.mpr (Geometry.isName_spelling .polygon)
  | _ => exact List.forall_mem_singleton.mpr rfl

/-- The length of a type is read behind the word of the type, if no parenthesis follows. -/
theorem reads_typeLength (length : Option UInt32) {behind : List Word}
    (noLength : firstKind behind ≠ .leftParen) :
    Reads typeLength ((length.map fun length => enclosed [countWord length.toNat]).getD [] ++ behind)
      length behind := by
  cases length with
  | none => exact (Reads.eat_false noLength).bind (.pure _ _)
  | some length =>
    refine (Reads.eat_true rfl).bind ((Reads.check_true rfl).bind ?_)
    refine Reads.current_bind fun token same => ?_
    rw [Token.length?_of_word (show token.word = (countWord length.toNat).token.word from same),
      length?_countWord]
    exact Reads.advance_bind fun _ _ => .expect_bind rfl (.pure _ _)

/-- The words of a type are read as the type, if no parenthesis follows. -/
theorem reads_dataType (target : DataType) {behind : List Word}
    (noLength : firstKind behind ≠ .leftParen) :
    Reads dataType (target.words ++ behind) target behind := by
  have split (keyword : Keyword) (length : Option UInt32) :
      lengthWords keyword length ++ behind = keyword.word ::
        ((length.map fun length => enclosed [countWord length.toNat]).getD [] ++ behind) := by
    cases length <;> rfl
  cases target with
  | smallint | integer | bigint | real | timestamp => exact reads_simpleType rfl behind
  | point | circle | polygon => exact reads_simpleType (simpleType?_name rfl) behind
  | double =>
    rw [show DataType.double.words ++ behind = Keyword.DOUBLE.word :: Keyword.PRECISION.word :: behind
      from rfl]
    refine Reads.current_bind fun token same => ?_
    obtain ⟨_, _, _⟩ := token
    cases same
    exact Reads.advance_bind fun _ _ => (Reads.expectWord _ _).bind (.pure _ _)
  | char length =>
    rw [DataType.words, split]
    refine Reads.current_bind fun token same => ?_
    obtain ⟨_, _, _⟩ := token
    cases same
    exact Reads.advance_bind fun _ _ => (reads_typeLength length noLength).bind (.pure _ _)
  | varchar length =>
    rw [DataType.words, split]
    refine Reads.current_bind fun token same => ?_
    obtain ⟨_, _, _⟩ := token
    cases same
    exact Reads.advance_bind fun _ _ => (reads_typeLength length noLength).bind (.pure _ _)

/-- A conversion is restored. -/
theorem Expr.Restored.cast [Likeness alike] {operand : Expr} {target : DataType} (hoperand : operand.Restored alike) :
    (Expr.cast operand target).Restored alike := by
  obtain ⟨tree, same, depth, reads⟩ :=
    hoperand.expression (.inl (Nat.zero_le _)) fun _ => .of_ends
  have starts : TokenKind.keyword .CAST ∈ operandStart ∧ TokenKind.keyword .CAST ∉ literalKinds := by
    decide
  refine .of_operand (List.forall_mem_cons.mpr ⟨rfl, spelled_enclosed (List.forall_mem_append.mpr
    ⟨hoperand.spelled, List.forall_mem_cons.mpr ⟨rfl, target.spelled⟩⟩)⟩)
    (.of_word starts.1 _) (.cast tree target) (Likeness.cast same) (depth + 2)
    fun allowance enough behind _ => ?_
  obtain ⟨less, rfl⟩ : ∃ less, allowance = less + 2 := ⟨allowance - 2, by omega⟩
  have closing : firstKind (TokenKind.rightParen.word :: behind) ≠ .leftParen := nofun
  have type : Reads (apply true (less + 1) .dataType)
      (target.words ++ TokenKind.rightParen.word :: behind) target
      (TokenKind.rightParen.word :: behind) := .apply (reads_dataType target closing)
  have read := reads (less + 1) (by omega) (Keyword.AS.word :: (target.words ++
    TokenKind.rightParen.word :: behind)) rfl
  have shape : Expr.words true (.cast operand target) ++ behind =
      Keyword.CAST.word :: TokenKind.leftParen.word :: (operand.words true ++ Keyword.AS.word ::
        (target.words ++ TokenKind.rightParen.word :: behind)) := by
    simp [Expr.words, enclosed]
  rw [shape]
  refine reads_operand rfl starts.2 (.apply ((Reads.expectWord _ _).bind ?_))
  have inside : Reads (do
      let operand ← apply true (less + 1) .expression
      expectWord .AS
      let target ← apply true (less + 1) .dataType
      pure (Expr.cast operand target)) (operand.words true ++ Keyword.AS.word ::
        (target.words ++ TokenKind.rightParen.word :: behind)) (Expr.cast tree target)
      (TokenKind.rightParen.word :: behind) :=
    read.bind ((Reads.expectWord _ _).bind (type.bind (.pure _ _)))
  exact .expect_bind rfl (inside.bind (.expect_bind rfl (.pure _ _)))

end Adql
