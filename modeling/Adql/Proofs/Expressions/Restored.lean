import Adql.Proofs.Expressions.Restoring

/-!
# Expressions that are restored

One lemma for each way to build an expression without queries: the words of the whole are put
together of the words of its parts, so the whole is restored if its parts are.
-/

namespace Adql

open Adql.Parser Adql.Grammar

/-! ### Operands -/

namespace Expr

variable {alike : Expr → Expr → Prop} {expr left right operand : Expr}

/-- An expression whose words are read as one operand is restored. -/
theorem Restored.of_operand (spelled : ∀ word ∈ expr.words true, word.Spelled)
    (starts : StartsOperand (expr.words true)) (tree : Expr) (same : alike tree expr)
    (depth : Nat) (reads : ∀ allowance, depth ≤ allowance → ∀ behind, expr.EndsAt behind →
      Reads (Grammar.operand true (apply true allowance)) (expr.words true ++ behind) tree behind) :
    expr.Restored alike :=
  (Restores.of_operand spelled starts tree same depth reads).mono (fun _ _ => trivial) fun _ ends =>
    ends

variable [Likeness alike]

/-- An operand is restored, with or without parentheses; only without them it matters where it
stands. -/
theorem Restored.enclosedIf (h : expr.Restored alike) (needed : Bool) :
    Restores (enclosedIf needed (expr.words true)) (alike · expr)
      (fun level => needed = false → level ≤ expr.level .adql ∨ expr.isUnary = true)
      (fun behind => needed = false → expr.EndsAt behind) := by
  cases needed with
  | false => exact h.mono (fun _ fits => fits rfl) fun _ ends => ends rfl
  | true =>
    exact (h.enclosed (.inl (Nat.zero_le _)) (fun _ => .of_ends) fun _ => Likeness.added).mono
      (fun _ _ => trivial) fun _ _ => trivial

/-- What binds tight enough for its place may stand there bare. -/
theorem le_level_of_looserThan {minLevel : Nat} (h : expr.looserThan minLevel = false) :
    minLevel ≤ expr.level .adql := by
  simpa [looserThan] using h

/-- What stands bare on the right of an operator binds tight enough, or has a prefix operator. -/
theorem le_level_of_looserRight {minLevel : Nat} (h : expr.looserRight minLevel = false) :
    minLevel ≤ expr.level .adql ∨ expr.isUnary = true := by
  unfold looserRight at h
  cases hunary : expr.isUnary with
  | true => exact .inr rfl
  | false =>
    rw [hunary, Bool.not_false, Bool.and_true] at h
    exact .inl (le_level_of_looserThan h)

/-- The expression `left op right` is restored if no run of operators that its left operand leaves
open goes on with the operator. -/
theorem Restored.binary {op : BinaryOp} (hleft : left.Restored alike) (hright : right.Restored alike)
    (closed : left.looserThan (PrecedenceTable.adql.binaryLevel op) = false →
      PrecedenceTable.adql.binaryLevel op < left.openLevel) :
    (Expr.binary left op right).Restored alike := by
  let level := PrecedenceTable.adql.binaryLevel op
  have found : PrecedenceTable.adql.binding? op = some ⟨level, .left⟩ :=
    PrecedenceTable.binding?_adql op
  have hfront := hleft.enclosedIf (left.looserThan level)
  have hback := hright.enclosedIf (right.looserRight (PrecedenceTable.adql.rightLevel op))
  obtain ⟨treeRight, sameRight, depthRight, readsRight⟩ := hback.run le_level_of_looserRight
  obtain ⟨treeLeft, sameLeft, depthLeft, readsLeft⟩ := hfront.reads
  have spelled : op.token.word.Spelled := by cases op <;> rfl
  refine ⟨List.forall_mem_append.mpr ⟨hfront.spelled, List.forall_mem_cons.mpr
    ⟨spelled, hback.spelled⟩⟩, hfront.starts.append _, .binary treeLeft op treeRight,
    Likeness.binary sameLeft sameRight, max depthLeft depthRight, ?_⟩
  intro allowance enough level' behind fits ends
  have tight : level' ≤ level := fits.resolve_right Bool.false_ne_true
  obtain ⟨stops, rightEnds⟩ := ends.last right rfl fun bare pattern => by
    simp [endsInPattern, bare, pattern]
  have read := readsRight allowance (by omega) behind rightEnds stops
  have right_eq : Binding.rightOperandLevel ⟨level, .left⟩ = PrecedenceTable.adql.rightLevel op :=
    (PrecedenceTable.rightLevel_adql op).symm
  have step : Reads (operatorStep (apply true allowance) level' treeLeft)
      (op.token.word :: (Adql.enclosedIf
        (right.looserRight (PrecedenceTable.adql.rightLevel op)) (right.words true) ++ behind))
      (.more (.binary treeLeft op treeRight)) behind :=
    reads_binaryStep found rfl tight (right_eq ▸ read)
  obtain ⟨first, middle, hfirst, steps⟩ := readsLeft allowance (by omega) level'
    (op.token.word :: (Adql.enclosedIf
      (right.looserRight (PrecedenceTable.adql.rightLevel op)) (right.words true) ++ behind))
    (fun bare => .inl (Nat.le_trans tight (le_level_of_looserThan bare)))
    (fun bare => ⟨by cases op <;> nofun, by cases op <;> nofun,
      .of_binary found rfl (closed bare), fun _ => by cases op <;> nofun⟩)
  refine ⟨first, middle, ?_, steps.trans (.word_cons step (.refl _ _))⟩
  simpa [Expr.words, level] using hfirst

/-- A prefix operator with its operand is restored in any run of operators. -/
theorem Restored.unary {op : UnaryOp} (h : operand.Restored alike) :
    (Expr.unary op operand).Restored alike := by
  have hback := h.enclosedIf (operand.looserRight (PrecedenceTable.adql.prefixLevel op))
  obtain ⟨tree, same, depth, reads⟩ := hback.run le_level_of_looserRight
  have spelled : op.token.word.Spelled := by cases op <;> rfl
  have starts : op.token.word.kind ∈ operandStart := by cases op <;> decide
  refine .of_operand (List.forall_mem_cons.mpr ⟨spelled, hback.spelled⟩)
    (.of_word starts _) (.unary op tree) (Likeness.unary same) depth ?_
  intro allowance enough behind ends
  obtain ⟨stops, operandEnds⟩ := ends.last operand rfl fun bare pattern => by
    simp [endsInPattern, bare, pattern]
  have read := reads allowance enough behind operandEnds stops
  have token : UnaryOp.ofToken? op.token = some op := by cases op <;> rfl
  refine (Reads.currentKind (op.token.word :: _)).bind ?_
  rw [firstKind_cons, show op.token.word.kind = op.token from rfl, token]
  exact Reads.advance_bind fun _ _ => (Reads.precedence _).bind (read.map _)

/-! ### Leaves -/

/-- A literal is restored if its word can be written and stands for it. -/
theorem Restored.literal {value : Literal} (spelled : value.word.Spelled)
    (again : value.word.token.literal? = some value) : (Expr.literal value).Restored alike := by
  have kind : value.word.kind = .integer ∨ value.word.kind = .real ∨ value.word.kind = .string ∨
      value.word.kind = .keyword .TRUE ∨ value.word.kind = .keyword .FALSE ∨
      value.word.kind = .keyword .NULL := by
    cases value with
    | boolean value => cases value <;> simp [Literal.word, Keyword.word, TokenKind.word]
    | _ => simp [Literal.word, Keyword.word, TokenKind.word]
  have starts : value.word.kind ∈ operandStart ∧ UnaryOp.ofToken? value.word.kind = none := by
    rcases kind with kind | kind | kind | kind | kind | kind <;> rw [kind] <;> decide
  have words : (Expr.literal value).words true = [value.word] := Literal.words_eq spelled again
  refine .of_operand (words ▸ List.forall_mem_singleton.mpr spelled)
    (words ▸ .of_word starts.1 []) (.literal value) (Likeness.refl _) 0 fun allowance _ behind _ => ?_
  rw [words]
  refine (Reads.currentKind (value.word :: behind)).bind ?_
  rw [firstKind_cons, starts.2]
  refine Reads.current_bind fun token same => ?_
  rw [Token.literal?_of_word (show token.word = value.word.token.word from same), again]
  exact Reads.advance_bind fun _ _ => .pure _ _

/-- A column with a valid name is restored. -/
theorem Restored.column {name : QualifiedName} (valid : name.Valid) :
    (Expr.column name).Restored alike := by
  have starts : StartsOperand name.words := by
    have named := valid.firstKind []
    rw [List.append_nil] at named
    obtain ⟨word, rest, split⟩ := List.exists_cons_of_ne_nil (l := name.words) fun none => by
      rw [none] at named
      cases named
    rw [split] at named ⊢
    exact .of_name named rest
  exact .of_operand valid.spelled starts (.column name) (Likeness.refl _) 0
    fun allowance _ behind ends => reads_column valid ends.dot ends.leftParen

/-- An expression in parentheses is restored if the expression is. -/
theorem Restored.paren (h : expr.Restored alike) : (Expr.paren expr).Restored alike := by
  exact (h.enclosed (.inl (Nat.zero_le _)) (fun _ => .of_ends) fun _ => Likeness.paren).mono
    (fun _ _ => trivial) fun _ _ => trivial

/-! ### Predicates -/

/-- A predicate is restored if its operand is and leaves no run of operators open that goes on with
the predicate, and if its postfix part is read whatever the operand is. -/
theorem Restored.predicate {tail : List Word} (hoperand : operand.Restored alike)
    (closed : operand.looserThan predicateLevel = false → predicateLevel < operand.openLevel)
    (level : expr.level .adql = predicateLevel)
    (plain : expr.isUnary = false)
    (words : expr.words true =
      Adql.enclosedIf (operand.looserThan predicateLevel) (operand.words true) ++ tail)
    (spelled : ∀ word ∈ tail, word.Spelled)
    (starts : ∀ behind, startsPredicate (firstKind (tail ++ behind)) (secondKind (tail ++ behind)) =
      true) (build : Expr → Expr)
    (same : ∀ tree, alike tree operand → alike (build tree) expr)
    (depth : Nat)
    (reads : ∀ allowance, depth ≤ allowance → ∀ tree behind, expr.EndsAt behind →
      Reads (predicateTail (apply true allowance) tree (predicateLevel + 1)) (tail ++ behind)
        (build tree) behind) : expr.Restored alike := by
  have hfront := hoperand.enclosedIf (operand.looserThan predicateLevel)
  obtain ⟨tree, sameOperand, depthOperand, readsOperand⟩ := hfront.reads
  unfold Restored
  rw [words]
  refine ⟨List.forall_mem_append.mpr ⟨hfront.spelled, spelled⟩, hfront.starts.append tail,
    build tree, same tree sameOperand, max depth depthOperand, ?_⟩
  intro allowance enough level' behind fits ends
  have tight : level' ≤ predicateLevel :=
    level ▸ fits.resolve_right (by rw [plain]; exact Bool.false_ne_true)
  have hstart := starts behind
  -- the word of the predicate goes on with nothing else
  have first : firstKind (tail ++ behind) ≠ .dot ∧ firstKind (tail ++ behind) ≠ .leftParen ∧
      firstKind (tail ++ behind) ≠ .keyword .ESCAPE := by
    refine ⟨?_, ?_, ?_⟩ <;> intro same <;> rw [same] at hstart <;> cases hstart
  have operandEnds (bare : operand.looserThan predicateLevel = false) :
      operand.EndsAt (tail ++ behind) :=
    ⟨first.1, first.2.1, (stops_iff_of_predicate hstart).mpr (closed bare), fun _ => first.2.2⟩
  have step : Reads (operatorStep (apply true allowance) level' tree) (tail ++ behind)
      (.more (build tree)) behind := by
    refine (Reads.precedence _).bind ((Reads.currentKind _).bind ((Reads.nextKind _).bind ?_))
    rw [if_pos hstart,
      if_neg (show ¬PrecedenceTable.adql.predicateLevel < level' from Nat.not_lt_of_le tight)]
    exact (reads allowance (by omega) tree behind ends).map _
  have shorter : behind.length < (tail ++ behind).length := by
    cases tail with
    | nil =>
      have none := starts []
      cases none
    | cons word tail => simp only [List.length_append, List.length_cons]; omega
  obtain ⟨first, middle, hfirst, steps⟩ := readsOperand allowance (by omega) level'
    (tail ++ behind) (fun bare => .inl (Nat.le_trans tight (le_level_of_looserThan bare)))
    operandEnds
  refine ⟨first, middle, ?_, steps.trans (.cons step shorter (.refl _ _))⟩
  rw [List.append_assoc]
  exact hfirst

/-- A test for null is restored. -/
theorem Restored.isNull {negated : Bool} (hoperand : operand.Restored alike)
    (closed : operand.looserThan predicateLevel = false → predicateLevel < operand.openLevel) :
    (Expr.isNull operand negated).Restored alike := by
  refine hoperand.predicate closed rfl rfl rfl ?_ (fun _ => rfl)
    (fun tree => .isNull tree negated) (fun _ => Likeness.isNull) 0
    fun allowance _ tree behind _ => ?_
  · cases negated <;> simp [wordIf, Keyword.spelled_word]
  · have null : Reads (do expectWord .NULL; pure (Expr.isNull tree negated))
        (Keyword.NULL.word :: behind) (.isNull tree negated) behind :=
      (Reads.expectWord _ _).bind (.pure _ _)
    refine (Reads.eat_true rfl).bind ?_
    cases negated with
    | false => exact (Reads.eat_false (firstKind_keyword_ne (by decide) _)).bind null
    | true => exact (Reads.eat_true rfl).bind null

/-- A predicate that can be negated is restored as any predicate is. -/
theorem Restored.negatable {keyword : Keyword} {negated : Bool} {rest : List Word}
    (hoperand : operand.Restored alike)
    (closed : operand.looserThan predicateLevel = false → predicateLevel < operand.openLevel)
    (level : expr.level .adql = predicateLevel) (plain : expr.isUnary = false)
    (words : expr.words true =
      Adql.enclosedIf (operand.looserThan predicateLevel) (operand.words true) ++
        (wordIf .NOT negated ++ keyword.word :: rest))
    (negatable : isNegatable (.keyword keyword) = true) (spelled : ∀ word ∈ rest, word.Spelled)
    (build : Expr → Expr)
    (same : ∀ tree, alike tree operand → alike (build tree) expr)
    (depth : Nat)
    (reads : ∀ allowance, depth ≤ allowance → ∀ tree behind, expr.EndsAt behind →
      Reads (negatableTail (apply true allowance) tree (predicateLevel + 1) negated)
        (keyword.word :: (rest ++ behind)) (build tree) behind) : expr.Restored alike := by
  have other : keyword ≠ .IS ∧ keyword ≠ .NOT := by
    constructor <;> rintro rfl <;> cases negatable
  have starts (next : TokenKind) : startsPredicate (.keyword keyword) next = true := by
    rw [startsPredicate_of_ne (fun same => other.2 (TokenKind.keyword.inj same)) next .eof]
    unfold startsPredicate
    split
    · rfl
    · next same => exact absurd (TokenKind.keyword.inj same) other.2
    · exact negatable
  refine hoperand.predicate closed level plain words ?_ ?_ build same depth fun allowance enough tree
    behind ends => ?_
  · cases negated <;> simpa [wordIf, Keyword.spelled_word] using spelled
  · cases negated with
    | false => exact fun _ => starts _
    | true => exact fun _ => negatable
  · have read := reads allowance enough tree behind ends
    rw [predicateTail_eq, List.append_assoc]
    cases negated with
    | false =>
      exact (Reads.eat_false (firstKind_keyword_ne other.1 _)).bind
        ((Reads.eat_false (firstKind_keyword_ne other.2 _)).bind read)
    | true =>
      exact (Reads.eat_false (firstKind_keyword_ne (by decide) _)).bind
        ((Reads.eat_true rfl).bind read)

/-- A range test is restored if its lower bound leaves no run of operators open that goes on with the
word between the bounds. -/
theorem Restored.between {low high : Expr} {negated : Bool} (hoperand : operand.Restored alike)
    (hlow : low.Restored alike) (hhigh : high.Restored alike)
    (closed : operand.looserThan predicateLevel = false → predicateLevel < operand.openLevel)
    (closedLow : low.looserThan (predicateLevel + 1) = false →
      PrecedenceTable.adql.binaryLevel .and < low.openLevel) :
    (Expr.between operand low high negated).Restored alike := by
  have hlower := hlow.enclosedIf (low.looserThan (predicateLevel + 1))
  have hupper := hhigh.enclosedIf (high.looserThan (predicateLevel + 1))
  obtain ⟨treeLow, sameLow, depthLow, readsLow⟩ :=
    hlower.run fun bare => .inl (le_level_of_looserThan bare)
  obtain ⟨treeHigh, sameHigh, depthHigh, readsHigh⟩ :=
    hupper.run fun bare => .inl (le_level_of_looserThan bare)
  have found := PrecedenceTable.binding?_adql .and
  refine hoperand.negatable closed rfl rfl rfl rfl
    (List.forall_mem_append.mpr ⟨hlower.spelled, List.forall_mem_cons.mpr ⟨rfl, hupper.spelled⟩⟩)
    (fun tree => .between tree treeLow treeHigh negated)
    (fun tree same => Likeness.between same sameLow sameHigh) (max depthLow depthHigh) ?_
  intro allowance enough tree behind ends
  obtain ⟨stops, highEnds⟩ := ends.last high rfl fun bare pattern => by
    simp [endsInPattern, bare, pattern]
  have lower := readsLow allowance (by omega)
    (Keyword.AND.word :: (Adql.enclosedIf (high.looserThan (predicateLevel + 1)) (high.words true) ++
      behind)) (fun bare => ⟨nofun, nofun, .of_binary found rfl (closedLow bare), fun _ => nofun⟩)
    (.of_binary found rfl (by decide))
  have upper := readsHigh allowance (by omega) behind highEnds stops
  rw [List.append_assoc, List.cons_append]
  exact (Reads.eat_true rfl).bind (lower.bind ((Reads.expectWord _ _).bind (upper.bind (.pure _ _))))

/-- An escape clause ends every run of operators. -/
theorem stops_escape (level : Nat) (words : List Word) :
    Stops level (Keyword.ESCAPE.word :: words) := by
  unfold Stops
  rintro _ _ ⟨⟩

/-- A pattern match is restored, if a pattern in front of an escape clause does not take the clause
for its own. -/
theorem Restored.like {pattern : Expr} {escape : Option Expr} {negated caseInsensitive : Bool}
    (hoperand : operand.Restored alike) (hpattern : pattern.Restored alike)
    (hescape : ∀ expr ∈ escape, expr.Restored alike)
    (closed : operand.looserThan predicateLevel = false → predicateLevel < operand.openLevel)
    (closedPattern : ∀ expr ∈ escape, pattern.looserThan (predicateLevel + 1) = false →
      pattern.endsInPattern = false) :
    (Expr.like operand pattern escape negated caseInsensitive).Restored alike := by
  have hfront := hpattern.enclosedIf (pattern.looserThan (predicateLevel + 1))
  obtain ⟨treePattern, samePattern, depthPattern, readsPattern⟩ :=
    hfront.run fun bare => .inl (le_level_of_looserThan bare)
  have word (words : List Word) {tree value : Expr} {behind : List Word} {allowance : Nat}
      (h : Reads (likeTail (apply true allowance) tree negated caseInsensitive (predicateLevel + 1))
        words value behind) :
      Reads (negatableTail (apply true allowance) tree (predicateLevel + 1) negated)
        ((likeKeyword caseInsensitive).word :: words) value behind := by
    have other {keyword : Keyword} (noLike : Keyword.LIKE ≠ keyword)
        (noIlike : Keyword.ILIKE ≠ keyword) : likeKeyword caseInsensitive ≠ keyword := by
      cases caseInsensitive <;> assumption
    refine (Reads.eat_false (firstKind_keyword_ne (other (by decide) (by decide)) _)).bind
      ((Reads.eat_false (firstKind_keyword_ne (other (by decide) (by decide)) _)).bind ?_)
    cases caseInsensitive with
    | false => exact (Reads.eat_true rfl).bind h
    | true =>
      exact (Reads.eat_false (firstKind_keyword_ne (by decide) _)).bind
        ((Reads.eat_true rfl).bind h)
  have negatable : isNegatable (.keyword (likeKeyword caseInsensitive)) = true := by
    cases caseInsensitive <;> rfl
  cases escape with
  | none =>
    refine hoperand.negatable closed rfl rfl rfl negatable
      (List.forall_mem_append.mpr ⟨hfront.spelled, fun _ h => nomatch h⟩)
      (fun tree => .like tree treePattern none negated caseInsensitive)
      (fun tree same => Likeness.patternMatch id same samePattern nofun) depthPattern ?_
    intro allowance enough tree behind ends
    obtain ⟨stops, patternEnds⟩ := ends.last pattern rfl fun _ _ => rfl
    have read := readsPattern allowance enough behind patternEnds stops
    rw [show Expr.escapeWords true none = [] from rfl, List.append_nil]
    exact word _ (read.bind ((Reads.afterWord_none (ends.escape rfl)).bind (.pure _ _)))
  | some escape =>
    have hback := (hescape escape rfl).enclosedIf (escape.looserThan (predicateLevel + 1))
    obtain ⟨treeEscape, sameEscape, depthEscape, readsEscape⟩ :=
      hback.run fun bare => .inl (le_level_of_looserThan bare)
    refine hoperand.negatable closed rfl rfl rfl negatable
      (List.forall_mem_append.mpr ⟨hfront.spelled, List.forall_mem_cons.mpr ⟨rfl, hback.spelled⟩⟩)
      (fun tree => .like tree treePattern (some treeEscape) negated caseInsensitive)
      (fun tree same => Likeness.patternMatch (fun _ => treeEscape) same samePattern <| by
        rintro _ ⟨⟩
        exact sameEscape)
      (max depthPattern depthEscape) ?_
    intro allowance enough tree behind ends
    obtain ⟨stops, escapeEnds⟩ := ends.last escape rfl fun bare pattern => by
      simp [endsInPattern, bare, pattern]
    have clause := readsEscape allowance (by omega) behind escapeEnds stops
    have read := readsPattern allowance (by omega)
      (Keyword.ESCAPE.word :: (Adql.enclosedIf (escape.looserThan (predicateLevel + 1))
        (escape.words true) ++ behind)) (fun bare => ⟨nofun, nofun, stops_escape _ _, fun inPattern =>
        absurd (inPattern.symm.trans (closedPattern escape rfl bare)) nofun⟩) (stops_escape _ _)
    rw [List.append_assoc]
    exact word _ (read.bind ((Reads.afterWord_some _ (clause.map some)).bind (.pure _ _)))

end Expr

end Adql
