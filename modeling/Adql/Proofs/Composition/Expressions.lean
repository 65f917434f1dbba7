import Adql.Proofs.Composition.Carrying
import Adql.Proofs.RoundTrip.Parentheses

/-!
# Expressions carry over to longer texts

Whatever the rules for names, data types and expressions do in front of words, they also do if the
words are put in parentheses, if the rules that they apply do so.
-/

namespace Adql

open Adql.Parser Adql.Grammar

variable {behind : List Word} {opened : Int}

/-- The kind of the first word is the kind of that word, or of the end marker. -/
theorem kind_headD (words : List Word) : (words.headD endWord).kind = firstKind words := by
  cases words <;> rfl

/-! ### Names and data types -/

/-- A type that a single token names is named by no parenthesis. -/
theorem isPlain_of_simpleType? {token : Token} {type : DataType} (h : simpleType? token = some type) :
    token.kind.IsPlain := by
  unfold simpleType? at h
  split at h
  case h_7 => cases h
  all_goals next hkind => exact hkind ▸ by decide

section

variable (closes : EndsArgument behind)

include closes

/-- Qualified names carry over. -/
theorem carried_qualifiedName : Carried behind opened opened qualifiedName := by
  refine (Carried.pointed closes (.identifier closes)).bind fun parts => ?_
  cases parts.getLast? with
  | some name => exact .pure _
  | none => exact .fail

/-- The lengths of data types carry over. -/
theorem carried_typeLength : Carried behind 0 0 typeLength := by
  refine .eatOpening_bind closes (fun words => ?_) (.pure none)
  simp only [↓reduceIte]
  refine (Carries.checkPlain closes (by decide)).bind ?_
  rintro there _ _ ⟨rfl, rfl, ahead⟩
  cases there with
  | false => exact .fail
  | true =>
    simp only [↓reduceIte]
    have number := ahead.mp rfl
    refine .current_bind closes (fun token => rfl) ?_ ?_
    · rintro rfl
      cases number
    · split
      · next length _ =>
        refine .advancePlain_bind (number ▸ by decide) fun word rest split => ?_
        subst split
        refine (Carried.closing_bind (.pure (some length)) rest).mono ?_
        exact fun _ _ _ => .cons
      · exact .failExpecting _

/-- Data types carry over. -/
theorem carried_dataType : Carried behind 0 0 dataType := by
  intro words
  have behindFirst {q : Parser DataType} (h : Carried behind 0 0 q)
      (hkind : (firstKind words).IsPlain) :
      Carries behind 0 (advance >>= fun _ => q) (advance >>= fun _ => q) words (Leaves 0 words) := by
    refine .advancePlain_bind hkind fun word rest split => ?_
    subst split
    exact (h rest).mono fun _ _ _ => .cons
  refine .current_bind closes (fun token => rfl) ?_ ?_
  · rintro _ closing (hkind | hkind)
    · simp [hkind, simpleType?, endWord, Word.token]
    · simp [hkind, simpleType?, endWord, Word.token]
  · rw [Word.kind_token, kind_headD]
    split
    · next hkind => exact behindFirst (.expectWord_bind closes (.pure _)) (hkind ▸ by decide)
    · next hkind =>
      exact behindFirst ((carried_typeLength closes).bind fun _ => .pure _) (hkind ▸ by decide)
    · next hkind =>
      exact behindFirst ((carried_typeLength closes).bind fun _ => .pure _) (hkind ▸ by decide)
    · split
      · next type htype =>
        have plain := isPlain_of_simpleType? htype
        exact behindFirst (.pure type) (kind_headD words ▸ plain)
      · exact .failExpecting _

end

namespace CarriesExpressions

variable {apply : (rule : Rule) → Parser rule.Result} (rules : CarriesExpressions behind apply)

include rules

/-- Queries in parentheses carry over. -/
theorem parenthesizedQuery : Carried behind 0 0 (parenthesizedQuery apply) :=
  .inParentheses rules.closes (rules.carriedInner .query fun _ => trivial)

/-- Expressions carry over. -/
theorem expression : Carried behind 0 0 (apply .expression) :=
  rules.carried .expression rfl fun _ => trivial

/-- Runs of operators carry over. -/
theorem run (level : Nat) : Carried behind 0 0 (apply (.operators level)) :=
  rules.carried (.operators level) rfl fun _ => trivial

/-- Lists of expressions in parentheses carry over. -/
theorem expressions : Carried behind 1 1 (expressions apply) :=
  .listed (fun _ => by decide) rules.expression.inside

/-! ### Predicates -/

/-- What follows `BETWEEN` carries over. -/
theorem betweenTail (operand : Expr) (negated : Bool) (level : Nat) :
    Carried behind 0 0 (betweenTail apply operand negated level) :=
  (rules.run level).bind fun _ => .expectWord_bind rules.closes <|
    (rules.run level).bind fun _ => .pure _

/-- What follows `IN` carries over. -/
theorem inTail (operand : Expr) (negated : Bool) :
    Carried behind 0 0 (inTail apply operand negated) := by
  refine .opening_bind rules.closes (.currentKind_bind rules.closes rfl rfl fun kind => .ite _ ?_ ?_)
  · exact (rules.carriedInner .query fun _ => trivial).bind fun _ => .closing_bind (.pure _)
  · exact rules.expressions.bind fun _ => .closing_bind (.pure _)

/-- What follows `LIKE` or `ILIKE` carries over. -/
theorem likeTail (operand : Expr) (negated caseInsensitive : Bool) (level : Nat) :
    Carried behind 0 0 (likeTail apply operand negated caseInsensitive level) :=
  (rules.run level).bind fun _ =>
    (Carried.afterWord rules.closes _ _
      ((rules.run level).map some)).bind
      fun _ => .pure _

/-- The predicates that can be negated carry over; they take words away. -/
theorem negatableTail (operand : Expr) (level : Nat) (negated : Bool) :
    CarriedAhead behind 0 0 (negatableTail apply operand level negated) := by
  refine .eatWord_bind rules.closes (rules.betweenTail operand negated level) ?_
  refine .eatWord_bind rules.closes (rules.inTail operand negated) ?_
  refine .eatWord_bind rules.closes (rules.likeTail operand negated false level) ?_
  exact .eatWord_bind rules.closes (rules.likeTail operand negated true level) .fail

/-- The postfix parts of predicates carry over; they take words away. -/
theorem predicateTail (operand : Expr) (level : Nat) :
    CarriedAhead behind 0 0 (predicateTail apply operand level) := by
  rw [predicateTail_eq]
  refine .eatWord_bind rules.closes ?_ (.bind_right (.eatWord rules.closes _) fun negated =>
    rules.negatableTail operand level negated)
  exact .eatWord_bind rules.closes fun _ => .expectWord_bind rules.closes (.pure _)

/-! ### Calls -/

/-- The arguments of aggregate functions carry over. -/
theorem aggregateArgument (word : Keyword) : Carried behind 0 0 (aggregateArgument apply word) := by
  have argument (distinct : Bool) : Carried behind 0 0 (do
      let expr ← apply .expression
      pure (expr, distinct)) :=
    rules.expression.bind fun _ => .pure _
  rw [aggregateArgument_eq]
  refine (Carried.ite _ (.eat rules.closes (by decide)) (.pure false)).bind fun all => ?_
  refine .ite _ (.pure _) (.eatWord_bind rules.closes fun distinct => .ite _ (argument true) ?_)
  exact .eatWord_bind rules.closes fun _ => argument false

/-- Calls of aggregate functions carry over. -/
theorem aggregate : Carried behind 0 0 (aggregate apply) := by
  intro words
  refine .current_bind rules.closes (fun token => rfl) ?_ ?_
  · rintro _ closing (hkind | hkind)
    · simp [Token.keyword?, Word.token, hkind, endWord]
    · simp [Token.keyword?, Word.token, hkind, endWord]
  · split
    · exact .fail
    · next word hword =>
      have plain : (firstKind words).IsPlain := by
        rw [← kind_headD, show (words.headD endWord).kind = _ from Token.keyword?_eq_some.mp hword]
        exact .keyword _
      refine .advancePlain_bind plain fun _ rest split => ?_
      subst split
      refine (Carried.opening_bind rules.closes ((rules.aggregateArgument word).inside.bind
        fun argument => .closing_bind (.pure _)) rest).mono fun _ _ _ => .cons

/-- The arguments of calls carry over. -/
theorem callArguments : Carried behind 1 1 (callArguments apply) :=
  (Carried.check (by decide) fun _ => by decide).bind fun _ => .ite _ (.pure _) rules.expressions

/-- Calls of other functions carry over. -/
theorem functionCall : Carried behind 0 0 (functionCall apply) :=
  (Carried.identifier rules.closes).bind fun _ => .opening_bind rules.closes <|
    rules.callArguments.bind fun _ => .closing_bind (.pure _)

/-- The arguments of geometry functions carry over, the last one with the closing parenthesis. -/
theorem geometryStep (function : Geometry) :
    CarriedStep behind 1 0 (geometryStep apply function) := by
  intro arguments words
  refine rules.expression.inside words |>.bind ?_
  rintro argument _ rest ⟨rfl, fewer⟩
  have further {q : Parser (Step (Array Expr))} (h : q = pure (.more (arguments.push argument)))
      (word : Word) (rest' : List Word) (split : rest = word :: rest') (_ : word.kind = .comma) :
      Carries behind 1 q q rest' (LeavesStep 1 0 words) := by
    subst h split
    exact .pure ⟨rfl, fewer⟩
  have separates (word : Word) (rest' : List Word) (same : word.kind = .comma) :
      balance rest' + 1 = balance (word :: rest') + 1 := by
    rw [balance_eq rest' (same ▸ by decide)]
  refine .ite (fun _ => ?_) fun _ => ?_
  · exact .expect_bind 1 nofun (fun _ => by decide) separates (further rfl)
  have last : Carries behind 1 (do
      let _ ← expect .rightParen
      pure (Step.done (arguments.push argument))) (do
      let _ ← expect .rightParen
      pure (Step.done (arguments.push argument))) rest (LeavesStep 1 0 words) := by
    refine .expect_bind 0 nofun (fun _ => by decide) (fun word rest' same => ?_)
      fun word rest' split _ => ?_
    · rw [balance_closing rest' same]
      omega
    · subst split
      exact .pure ⟨rfl, Nat.le_of_lt fewer⟩
  by_cases accepts : function.acceptsMore (arguments.push argument).size = true
  · simp only [if_pos accepts]
    exact .eat_bind 1 nofun (fun _ => by decide) separates (further rfl) fun _ => last
  · simp only [if_neg accepts, pure_bind]
    exact last

/-- Calls of geometry functions carry over. -/
theorem geometryCall {function : Geometry} {words : List Word}
    (applies : (Rule.geometry function).applies words) :
    Carries behind 0 (geometryCall apply function) (geometryCall apply function) words
      (Leaves 0 words) := by
  obtain ⟨word, rest, rfl, hfunction⟩ := applies
  have plain : (firstKind (word :: rest)).IsPlain := by
    unfold Token.geometryFunction? at hfunction
    split at hfunction
    · next hkind => exact show word.kind.IsPlain from (show word.kind = .identifier from hkind) ▸ by decide
    · cases hfunction
  refine .advancePlain_bind plain fun _ rest split => ?_
  cases split
  refine (Carried.opening_bind rules.closes ((Carried.iterate (rules.geometryStep function) #[]).bind
    fun arguments => .pure _) rest).mono fun _ _ _ => .cons

/-! ### Case distinctions and conversions -/

/-- The branches of case distinctions carry over. -/
theorem branchStep : CarriedStep behind 0 0 (branchStep apply) := by
  intro branches words
  refine (rules.expression words).bind ?_
  rintro condition _ middle ⟨rfl, fewer⟩
  unfold expectWord
  rw [bind_assoc]
  refine .expectPlain_bind rules.closes (.keyword _) fun word inner split => ?_
  subst split
  refine (rules.expression inner).bind ?_
  rintro result _ rest ⟨rfl, fewer'⟩
  have shorter : rest.length < words.length := Nat.lt_of_le_of_lt fewer' fewer
  refine .eatPlain_bind rules.closes (.keyword _) (fun word rest' split => ?_)
    (.pure ⟨rfl, Nat.le_of_lt shorter⟩)
  subst split
  exact .pure ⟨rfl, Nat.lt_of_succ_lt shorter⟩

/-- Case distinctions carry over. -/
theorem caseDistinction : Carried behind 0 0 (caseDistinction apply) := by
  have subject : Carried behind 0 0 (caseSubject apply) :=
    (Carried.checkWord rules.closes _).bind fun _ =>
      .ite _ (.pure none) (rules.expression.map some)
  refine .expectWord_bind rules.closes <| subject.bind fun _ => .expectWord_bind rules.closes ?_
  refine (Carried.iterate rules.branchStep #[]).bind fun _ => ?_
  exact (Carried.afterWord rules.closes _ _
    (rules.expression.map some)).bind fun _ =>
    .expectWord_bind rules.closes (.pure _)

/-- Conversions carry over. -/
theorem conversion : Carried behind 0 0 (conversion apply) :=
  .expectWord_bind rules.closes <| .inParentheses rules.closes <|
    rules.expression.inside.bind fun _ =>
      .expectWord_bind rules.closes <|
      (rules.carried .dataType rfl fun _ => trivial).inside.bind fun _ => .pure _

/-! ### Parentheses -/

/-- Expressions in parentheses carry over. -/
theorem parenthesizedExpression : Carried behind 0 0 (parenthesizedExpression apply) :=
  .map _ (.inParentheses rules.closes rules.expression.inside)

/-- Queries that stand for values carry over. -/
theorem scalarSubquery : Carried behind 0 0 (scalarSubquery apply) :=
  .map _ rules.parenthesizedQuery

/-- Tests for rows carry over. -/
theorem existence : Carried behind 0 0 (existence apply) :=
  .expectWord_bind rules.closes (.map _ rules.parenthesizedQuery)

/-- A parenthesis that is tried both ways carries over. -/
theorem eitherParenthesis : Carried behind 0 0 (eitherParenthesis apply) :=
  .firstOf (fun words => rules.settles .parenthesizedTrial words rfl)
    (rules.carried .parenthesizedTrial rfl fun _ => trivial)
    (rules.carried .subqueryTrial rfl fun _ => trivial)

omit rules in
/-- Words behind words that close all their parentheses do not matter for whether the parentheses
ahead end in front of a query. -/
theorem parenthesesOpenQuery_append (closes : EndsArgument behind) {words : List Word}
    (close : 0 ≤ balance words) :
    parenthesesOpenQuery ((words ++ behind).map (·.kind) ++ [.eof]) =
      parenthesesOpenQuery (words.map (·.kind) ++ [.eof]) := by
  induction words with
  | nil =>
    obtain ⟨closing, tail, rfl, hkind | hkind⟩ := closes.exists_cons
    · simp [parenthesesOpenQuery, hkind, startsQuery]
    · simp [parenthesesOpenQuery, hkind, startsQuery]
  | cons word rest ih =>
    by_cases opening : word.kind = .leftParen
    · rw [balance_opening rest opening] at close
      simpa [parenthesesOpenQuery, opening] using ih (by omega)
    · simp [parenthesesOpenQuery, opening]

/-- What starts with a parenthesis carries over. -/
theorem parenthesis {words : List Word} (opening : firstKind words = .leftParen) :
    Carries behind 0 (parenthesis true apply) (Grammar.parenthesis true apply) words
      (Leaves 0 words) := by
  obtain ⟨word, rest, rfl, hkind⟩ := exists_cons_of_firstKind (by decide) opening
  refine .nextKind_bind rules.closes rfl rfl (.ite (fun _ => rules.carries .scalarSubquery _ rfl trivial) fun _ => ?_)
  refine .look_bind (.kindsAhead _) (fun _ => .of_look (.kindsAhead _) fun _ => rfl) (fun close => ?_) ?_
  · rw [parenthesesOpenQuery_append rules.closes close]
  · exact .ite (fun _ => rules.eitherParenthesis _) fun _ => rules.carries .parenthesized _ rfl trivial

/-! ### Operands and operators -/

/-- Names and calls carry over. -/
theorem nameOrCall {words : List Word} (named : (firstKind words).isIdentifier = true) :
    Carries behind 0 (nameOrCall apply) (Grammar.nameOrCall apply) words (Leaves 0 words) := by
  rw [nameOrCall_eq]
  have present : firstKind words ≠ .eof := fun h => by
    rw [h] at named
    cases named
  obtain ⟨word, rest, rfl, -⟩ := exists_cons_of_firstKind present rfl
  refine .nextKind_bind rules.closes rfl rfl (.ite (fun _ => ?_) fun _ => ?_)
  · refine .current_bind rules.closes (fun token => rfl) nofun ?_
    cases hfunction : word.token.geometryFunction? with
    | some function =>
      simp only [List.headD_cons, hfunction]
      exact rules.carries (.geometry function) _ rfl ⟨word, rest, rfl, hfunction⟩
    | none =>
      simp only [List.headD_cons, hfunction]
      exact rules.carries .functionCall _ rfl trivial
  · exact (carried_qualifiedName rules.closes).map _ _

/-- Operands without prefix operators carry over. -/
theorem primary : Carried behind 0 0 (primary true apply) := by
  intro words
  rw [primary_eq]
  refine .current_bind rules.closes (fun token => rfl) ?_ ?_
  · rintro _ closing (hkind | hkind)
    all_goals
      have noLiteral : closing.kind ∉ literalKinds := hkind ▸ by decide
      rw [Token.literal?_eq_none noLiteral, Word.kind_token, hkind]
      rfl
  · split
    · next value hvalue =>
      have literal : (firstKind words) ∈ literalKinds := by
        rw [← kind_headD]
        refine Decidable.byContradiction fun h => ?_
        rw [Token.literal?_eq_none h] at hvalue
        cases hvalue
      have plain : ∀ kind ∈ literalKinds, kind.IsPlain := by decide
      refine .advancePlain_bind (plain _ literal) fun word rest split => ?_
      subst split
      exact .pure ⟨rfl, Nat.le_succ _⟩
    · rw [Word.kind_token, kind_headD]
      unfold primaryOf
      split
      · next hkind => exact rules.parenthesis hkind
      · exact rules.carries .case _ rfl trivial
      · exact rules.carries .cast _ rfl trivial
      · exact rules.carries .exists _ rfl trivial
      · next hkind => exact rules.carries .aggregate _ rfl (show firstKind words ∈ _ from hkind ▸ by decide)
      · next hkind => exact rules.carries .aggregate _ rfl (show firstKind words ∈ _ from hkind ▸ by decide)
      · next hkind => exact rules.carries .aggregate _ rfl (show firstKind words ∈ _ from hkind ▸ by decide)
      · next hkind => exact rules.carries .aggregate _ rfl (show firstKind words ∈ _ from hkind ▸ by decide)
      · next hkind => exact rules.carries .aggregate _ rfl (show firstKind words ∈ _ from hkind ▸ by decide)
      · next hkind => exact rules.nameOrCall (hkind ▸ rfl)
      · next hkind => exact rules.nameOrCall (hkind ▸ rfl)
      · exact .failExpecting _

/-- Operands carry over. -/
theorem operand : Carried behind 0 0 (operand true apply) := by
  intro words
  refine .currentKind_bind rules.closes rfl rfl ?_
  cases hop : UnaryOp.ofToken? (firstKind words) with
  | none => exact rules.primary words
  | some op =>
    have plain : (firstKind words).IsPlain := by
      unfold UnaryOp.ofToken? at hop
      split at hop
      case h_5 => cases hop
      all_goals next hkind => exact hkind ▸ by decide
    refine .advancePlain_bind plain fun word rest split => ?_
    subst split
    refine (Carried.precedence_bind ?_ rest).mono fun _ _ _ => .cons
    exact .map _ (rules.run _)

/-- The operators of a run carry over. -/
theorem operatorStep (minLevel : Nat) : CarriedStep behind 0 0 (operatorStep apply minLevel) := by
  intro left words
  have stay (words : List Word) : Carries behind 0 (pure (Step.done left)) (pure (.done left)) words
      (LeavesStep 0 0 words) := .pure ⟨rfl, Nat.le_refl _⟩
  have noted (words : List Word) : Carries behind 0
      (noteAll (continuations .adql minLevel) >>= fun _ => pure (Step.done left))
      (noteAll (continuations .adql minLevel) >>= fun _ => pure (.done left)) words
      (LeavesStep 0 0 words) :=
    .look_bind (.noteAll _ _) (fun _ => ⟨.noteAll _ _, .noteAll _ (by simp)⟩) (fun _ => rfl) (stay words)
  refine .look_bind (.precedence _) (fun _ => .of_look (.precedence _) fun _ => rfl) (fun _ => rfl) ?_
  refine .currentKind_bind rules.closes rfl rfl ?_
  cases words with
  | nil =>
    refine .look_bind (.nextKind _) (fun _ => .of_look (.nextKind _) fun _ => rfl) (fun _ => rfl) ?_
    exact .currentKind_bind rules.closes rfl rfl (noted [])
  | cons word rest =>
    have same (kind : TokenKind) :
        startsPredicate kind .rightParen = startsPredicate kind .eof ∧
          startsPredicate kind .comma = startsPredicate kind .eof := by
      unfold startsPredicate
      split
      · exact ⟨rfl, rfl⟩
      · exact ⟨rfl, rfl⟩
      · exact ⟨rfl, rfl⟩
    refine .nextKind_bind rules.closes ?_ ?_ ?_
    · rw [(same _).1]
    · rw [(same _).2]
    refine .ite (fun _ => .ite (fun _ => stay _) fun _ => ?_) fun _ => ?_
    · exact .map (rules.predicateTail left _ _)
    refine .currentKind_bind rules.closes rfl rfl ?_
    cases hop : PrecedenceTable.adql.ofToken? (firstKind (word :: rest)) with
    | none => exact noted _
    | some found =>
      obtain ⟨op, binding⟩ := found
      refine .ite (fun _ => stay _) fun _ => ?_
      have plain : word.kind.IsPlain := by
        obtain ⟨op', hop', -⟩ := Option.bind_eq_some_iff.mp hop
        rw [show word.kind = op'.token from BinaryOp.eq_token_of_ofToken? hop']
        cases op' <;> decide
      refine .advancePlain_bind plain fun _ rest split => ?_
      cases split
      refine (rules.carries (.operators _) rest rfl trivial).bind ?_
      rintro right _ rest' ⟨rfl, fewer⟩
      exact .pure ⟨rfl, Nat.lt_succ_of_le fewer⟩

/-- Runs of operators carry over. -/
theorem operators (minLevel : Nat) : Carried behind 0 0 (operators true apply minLevel) :=
  rules.operand.bind fun first => .iterate (rules.operatorStep minLevel) first

/-! ### All rules for expressions -/

/-- The bodies of the rules for expressions carry over. -/
theorem body (rule : Rule) (words : List Word) (isExpression : rule.isExpression = true)
    (applies : rule.applies words) :
    Carries behind 0 (body true apply rule) (Grammar.body true apply rule) words
      (Leaves 0 words) := by
  cases rule with
  | expression => exact rules.carries (.operators 0) words rfl trivial
  | operators minLevel => exact rules.operators minLevel words
  | parenthesized => exact rules.parenthesizedExpression words
  | parenthesizedTrial => exact rules.carries .parenthesized words rfl trivial
  | scalarSubquery => exact rules.scalarSubquery words
  | subqueryTrial => exact rules.carries .scalarSubquery words rfl trivial
  | «exists» => exact rules.existence words
  | aggregate => exact rules.aggregate words
  | functionCall => exact rules.functionCall words
  | geometry function => exact rules.geometryCall applies
  | case => exact rules.caseDistinction words
  | cast => exact rules.conversion words
  | dataType => exact carried_dataType rules.closes words
  | _ => cases isExpression

end CarriesExpressions

end Adql
