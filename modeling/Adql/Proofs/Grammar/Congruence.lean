import Adql.Grammar

/-!
# Relations that the grammar keeps

Many statements about the grammar compare two runs, or say of one run how it moves the session.
They all go the same way: each primitive parser meets the statement, and each way to combine
parsers passes it on.  A `Congruence` is a relation between parsers with these two properties.

`Congruence.rel_body` walks through the grammar once and for all: if two parsers of the rules are
related rule by rule, so are the bodies of the rules that are built from them.  What is left to each
statement is its own primitives and its own induction over the nesting of the rules.

Three parsers note a whole list of kinds after a look at more than the current kind: those of
operands, of operators and of types.  A `NotingRelation` is met by whatever notes kinds, so these
parsers need no attention (`NotingRelation.congruence`).
-/

namespace Adql

open Adql.Parser Adql.Grammar

/-- Two tokens that no rule tells apart by looking at the current token alone. -/
structure Token.Alike (first second : Token) : Prop where
  /-- The kinds are the same. -/
  kind : first.kind = second.kind
  /-- The tokens stand for the same literal. -/
  literal : first.literal? = second.literal?
  /-- The tokens name the same geometry function. -/
  geometryFunction : first.geometryFunction? = second.geometryFunction?
  /-- The tokens name the same type. -/
  simpleType : simpleType? first = simpleType? second

/-- Every token is like itself. -/
theorem Token.Alike.refl (token : Token) : token.Alike token := ⟨rfl, rfl, rfl, rfl⟩

/-- Like tokens are the same reserved word. -/
theorem Token.Alike.keyword {first second : Token} (h : first.Alike second) :
    first.keyword? = second.keyword? := by
  rw [keyword?, keyword?, h.kind]

/-- A test of the current token notes at most the kind that it looks for. -/
theorem rel_check_of_noteAll
    {rel : {α β : Type} → (α → β → Prop) → Parser α → Parser β → Prop}
    (rel_pure : ∀ {α β : Type} {V : α → β → Prop} {a : α} {b : β}, V a b → rel V (pure a) (pure b))
    (rel_bind : ∀ {α β γ δ : Type} {V : α → β → Prop} {W : γ → δ → Prop} {p : Parser α}
      {q : Parser β} {f : α → Parser γ} {g : β → Parser δ},
      rel V p q → (∀ a b, V a b → rel W (f a) (g b)) → rel W (p >>= f) (q >>= g))
    (rel_currentKind : rel Eq currentKind currentKind)
    (rel_noteAll : ∀ kinds : List TokenKind, rel Eq (noteAll kinds) (noteAll kinds))
    (kind : TokenKind) : rel Eq (check kind) (check kind) := by
  refine rel_bind rel_currentKind fun here there same => ?_
  subst same
  split
  · exact rel_pure rfl
  · exact rel_bind (rel_noteAll [kind]) fun _ _ _ => rel_pure rfl

/-- A relation between parsers that most primitive ones meet and that the ways to combine parsers
keep.  The values of related parsers are related by a relation of their own. -/
structure ParserRelation where
  /-- The relation. -/
  rel {α β : Type} (value : α → β → Prop) (first : Parser α) (second : Parser β) : Prop
  rel_pure {α β : Type} {V : α → β → Prop} {a : α} {b : β} : V a b → rel V (pure a) (pure b)
  rel_bind {α β γ δ : Type} {V : α → β → Prop} {W : γ → δ → Prop} {p : Parser α} {q : Parser β}
    {f : α → Parser γ} {g : β → Parser δ} :
    rel V p q → (∀ a b, V a b → rel W (f a) (g b)) → rel W (p >>= f) (q >>= g)
  rel_currentKind : rel Eq currentKind currentKind
  rel_nextKind : rel Eq nextKind nextKind
  rel_kindsAhead : rel Eq kindsAhead kindsAhead
  rel_remaining : rel Eq remaining remaining
  rel_precedence : rel Eq precedence precedence
  rel_advance : rel (fun _ _ => True) advance advance
  rel_check (kind : TokenKind) : rel Eq (check kind) (check kind)
  rel_fail {α : Type} : rel (@Eq α) fail fail
  rel_firstOf {α : Type} {p q p' q' : Parser α} :
    rel Eq p p' → rel Eq q q' → rel Eq (firstOf p q) (firstOf p' q')
  rel_optional {α : Type} {p p' : Parser α} : rel Eq p p' → rel Eq (optional p) (optional p')
  rel_orRecover {α : Type} {p p' : Parser α} (sync : List TokenKind) (ifFailed : α) :
    rel Eq p p' → rel Eq (orRecover p sync ifFailed) (orRecover p' sync ifFailed)

/-- A relation between parsers that is met by noting kinds, whatever the current token is. -/
structure NotingRelation extends ParserRelation where
  rel_noteAll (kinds : List TokenKind) : rel Eq (noteAll kinds) (noteAll kinds)
  rel_check kind := rel_check_of_noteAll rel_pure rel_bind rel_currentKind rel_noteAll kind

/-- A relation between parsers that the remaining primitive ones meet as well, and the parsers that
note a list of kinds if the parsers of the rules do. -/
structure Congruence extends ParserRelation where
  rel_current : rel Token.Alike current current
  rel_identifier : rel Eq identifier identifier
  rel_rowCount : rel Eq rowCount rowCount
  rel_someItems {α : Type} {p p' : Parser α} : rel Eq p p' → rel Eq (someItems p) (someItems p')
  rel_dataType : rel Eq dataType dataType
  rel_operand {apply apply' : (rule : Rule) → Parser rule.Result} {lookahead lookahead' : Bool} :
    (∀ rule, rel Eq (apply rule) (apply' rule)) →
    rel Eq (parenthesis lookahead apply) (parenthesis lookahead' apply') →
    rel Eq (operand lookahead apply) (operand lookahead' apply')
  rel_operatorStep {apply apply' : (rule : Rule) → Parser rule.Result} :
    (∀ rule, rel Eq (apply rule) (apply' rule)) → ∀ (minLevel : Nat) (left : Expr),
    rel Eq (operatorStep apply minLevel left) (operatorStep apply' minLevel left)

namespace ParserRelation

variable (C : ParserRelation) {α β γ σ : Type}

/-! ### Ways to combine parsers -/

/-- The result of a sequence is related if its parts are, whatever the first part yields. -/
theorem rel_seq {W : β → γ → Prop} {p p' : Parser α} {f : α → Parser β} {g : α → Parser γ}
    (hp : C.rel Eq p p') (hf : ∀ a, C.rel W (f a) (g a)) : C.rel W (p >>= f) (p' >>= g) :=
  C.rel_bind hp fun a _ h => h ▸ hf a

/-- Parsers that ignore the value of the first part are related if their parts are. -/
theorem rel_then {V : α → α → Prop} {W : β → γ → Prop} {p p' : Parser α} {q : Parser β}
    {q' : Parser γ} (hp : C.rel V p p') (hq : C.rel W q q') :
    C.rel W (p >>= fun _ => q) (p' >>= fun _ => q') :=
  C.rel_bind hp fun _ _ _ => hq

/-- A parser that yields a value at once is related to itself. -/
theorem rel_value (a : α) : C.rel Eq (pure a) (pure a) :=
  C.rel_pure rfl

/-- The values of related parsers may be mapped. -/
theorem rel_map {p p' : Parser α} (f : α → β) (h : C.rel Eq p p') :
    C.rel Eq (f <$> p) (f <$> p') := by
  rw [map_eq_pure_bind, map_eq_pure_bind]
  exact C.rel_seq h fun a => C.rel_value (f a)

/-- Related parsers may be chosen by a condition. -/
theorem rel_ite {V : α → β → Prop} {p q : Parser α} {p' q' : Parser β} (c : Prop) [Decidable c]
    (hp : C.rel V p p') (hq : C.rel V q q') :
    C.rel V (if c then p else q) (if c then p' else q') := by
  split
  · exact hp
  · exact hq

/-- A token is eaten in both runs or in none. -/
theorem rel_eat (kind : TokenKind) : C.rel Eq (eat kind) (eat kind) :=
  C.rel_seq (C.rel_check kind) fun _ =>
    C.rel_ite _ (C.rel_then C.rel_advance (C.rel_value true)) (C.rel_value false)

/-- What a rule makes of a token that has to be there is related if it does not look at it. -/
theorem rel_expect {W : β → γ → Prop} {q : Parser β} {q' : Parser γ} (kind : TokenKind)
    (fails : C.rel W fail fail) (hq : C.rel W q q') :
    C.rel W (expect kind >>= fun _ => q) (expect kind >>= fun _ => q') := by
  simp only [expect, bind_assoc]
  refine C.rel_seq (C.rel_check kind) fun found => ?_
  cases found with
  | true => exact C.rel_then C.rel_advance hq
  | false => exact fails

/-- A token that has to be there, in front of parsers with the same value. -/
theorem rel_expectThen {q q' : Parser α} (kind : TokenKind) (hq : C.rel Eq q q') :
    C.rel Eq (expect kind >>= fun _ => q) (expect kind >>= fun _ => q') :=
  C.rel_expect kind C.rel_fail hq

/-- A reserved word that has to be there is related to itself. -/
theorem rel_expectWord (word : Keyword) : C.rel Eq (expectWord word) (expectWord word) :=
  C.rel_expectThen _ (C.rel_value ())

/-- Related parsers stay related behind a word that may be missing. -/
theorem rel_afterWord {p p' : Parser α} (word : Keyword) (default : α) (h : C.rel Eq p p') :
    C.rel Eq (afterWord word default p) (afterWord word default p') :=
  C.rel_seq (C.rel_eat _) fun _ => C.rel_ite _ h (C.rel_value default)

/-- A bounded repetition of related steps is related. -/
theorem rel_repeatAtMost {step step' : σ → Parser (Step σ)}
    (h : ∀ state, C.rel Eq (step state) (step' state)) (count : Nat) (state : σ) :
    C.rel Eq (repeatAtMost step count state) (repeatAtMost step' count state) := by
  induction count generalizing state with
  | zero => exact C.rel_value state
  | succ count ih =>
    refine C.rel_seq (h state) fun next => ?_
    cases next with
    | more state => exact ih state
    | done state => exact C.rel_value state

/-- A repetition of related steps is related. -/
theorem rel_iterate {step step' : σ → Parser (Step σ)}
    (h : ∀ state, C.rel Eq (step state) (step' state)) (start : σ) :
    C.rel Eq (iterate step start) (iterate step' start) :=
  C.rel_seq C.rel_remaining fun _ => C.rel_repeatAtMost h _ start

/-- Lists of related items are related. -/
theorem rel_oneOrMore {item item' : Parser α} (separator : TokenKind) (h : C.rel Eq item item') :
    C.rel Eq (oneOrMore separator item) (oneOrMore separator item') := by
  have step (items : Array α) :
      C.rel Eq (listStep separator item items) (listStep separator item' items) :=
    C.rel_seq (C.rel_eat _) fun _ =>
      C.rel_ite _ (C.rel_seq h fun _ => C.rel_value _) (C.rel_value _)
  exact C.rel_seq h fun _ => C.rel_seq (C.rel_iterate step _) fun _ => C.rel_value _

/-- Related parsers stay related in parentheses. -/
theorem rel_inParentheses {p p' : Parser α} (h : C.rel Eq p p') :
    C.rel Eq (inParentheses p) (inParentheses p') :=
  C.rel_expectThen _ <| C.rel_seq h fun _ => C.rel_expectThen _ (C.rel_value _)

/-! ### Parsers that look at whole tokens -/

/-- A number of rows is read alike where tokens are the same. -/
theorem rel_rowCount (rel_current : C.rel Eq current current) : C.rel Eq rowCount rowCount := by
  refine C.rel_seq (C.rel_check _) fun _ => C.rel_ite _ ?_ C.rel_fail
  refine C.rel_seq rel_current fun token => ?_
  cases token.rowCount? with
  | some count => exact C.rel_then C.rel_advance (C.rel_value count)
  | none => exact C.rel_fail

/-- A name is read alike where tokens are the same. -/
theorem rel_identifier (rel_advance : C.rel Eq advance advance) :
    C.rel Eq identifier identifier := by
  refine C.rel_seq (C.rel_check _) fun _ => C.rel_ite _ ?_ ?_
  · exact C.rel_seq rel_advance fun _ => C.rel_value _
  · refine C.rel_seq (C.rel_check _) fun _ => C.rel_ite _ ?_ C.rel_fail
    exact C.rel_seq rel_advance fun _ => C.rel_value _

/-- Items are read alike where recovery is possible in both runs or in none. -/
theorem rel_someItems {p p' : Parser α} (rel_canRecover : C.rel Eq canRecover canRecover)
    (h : C.rel Eq p p') : C.rel Eq (someItems p) (someItems p') := by
  have step (items : Array α) : C.rel Eq (itemStep p items) (itemStep p' items) :=
    C.rel_seq (C.rel_orRecover _ _ (C.rel_map some h)) fun _ => C.rel_seq (C.rel_eat _) fun _ =>
      C.rel_ite _ (C.rel_value _) (C.rel_value _)
  refine C.rel_seq rel_canRecover fun _ => C.rel_ite _ ?_ (C.rel_oneOrMore _ h)
  exact C.rel_seq (C.rel_iterate step _) fun _ => C.rel_value _

/-- A current token is like itself. -/
theorem rel_alike (rel_current : C.rel Eq current current) :
    C.rel Token.Alike current current := by
  have h : C.rel Token.Alike (current >>= pure) (current >>= pure) :=
    C.rel_bind rel_current fun first second same => C.rel_pure (by rw [same]; exact .refl second)
  rwa [bind_pure] at h

/-- A qualified name is read alike if its parts are. -/
theorem rel_qualifiedName (rel_identifier : C.rel Eq identifier identifier) :
    C.rel Eq qualifiedName qualifiedName := by
  refine C.rel_seq (C.rel_oneOrMore _ rel_identifier) fun parts => ?_
  cases parts.getLast? with
  | none => exact C.rel_fail
  | some name => exact C.rel_value _

/-! ### Predicates and names -/

section

variable {C} {apply apply' : (rule : Rule) → Parser rule.Result}
  (rel_apply : ∀ rule, C.rel Eq (apply rule) (apply' rule))

include rel_apply

/-- Related rules parse related queries in parentheses. -/
theorem rel_parenthesizedQuery :
    C.rel Eq (parenthesizedQuery apply) (parenthesizedQuery apply') :=
  C.rel_inParentheses (rel_apply .query)

/-- Related rules parse related lists of expressions. -/
theorem rel_expressions : C.rel Eq (expressions apply) (expressions apply') :=
  C.rel_oneOrMore _ (rel_apply .expression)

/-- Related rules parse what follows `BETWEEN` alike. -/
theorem rel_betweenTail (operand : Expr) (negated : Bool) (level : Nat) :
    C.rel Eq (betweenTail apply operand negated level)
      (betweenTail apply' operand negated level) :=
  C.rel_seq (rel_apply _) fun _ => C.rel_then (C.rel_expectWord _) <|
    C.rel_seq (rel_apply _) fun _ => C.rel_value _

/-- Related rules parse what follows `IN` alike. -/
theorem rel_inTail (operand : Expr) (negated : Bool) :
    C.rel Eq (inTail apply operand negated) (inTail apply' operand negated) :=
  C.rel_expectThen _ <| C.rel_seq C.rel_currentKind fun _ => C.rel_ite _
    (C.rel_seq (rel_apply _) fun _ => C.rel_expectThen _ (C.rel_value _))
    (C.rel_seq (rel_expressions rel_apply) fun _ => C.rel_expectThen _ (C.rel_value _))

/-- Related rules parse what follows `LIKE` alike. -/
theorem rel_likeTail (operand : Expr) (negated caseInsensitive : Bool) (level : Nat) :
    C.rel Eq (likeTail apply operand negated caseInsensitive level)
      (likeTail apply' operand negated caseInsensitive level) :=
  C.rel_seq (rel_apply _) fun _ =>
    C.rel_seq (C.rel_afterWord _ _ (C.rel_map some (rel_apply _))) fun _ => C.rel_value _

/-- Related rules parse the predicates alike. -/
theorem rel_predicateTail (operand : Expr) (level : Nat) :
    C.rel Eq (predicateTail apply operand level) (predicateTail apply' operand level) := by
  refine C.rel_seq (C.rel_eat _) fun _ => C.rel_ite _ ?_ ?_
  · exact C.rel_seq (C.rel_eat _) fun _ => C.rel_then (C.rel_expectWord _) (C.rel_value _)
  · refine C.rel_seq (C.rel_eat _) fun negated => C.rel_seq (C.rel_eat _) fun _ => ?_
    refine C.rel_ite _ (rel_betweenTail rel_apply operand negated level) ?_
    refine C.rel_seq (C.rel_eat _) fun _ => C.rel_ite _ (rel_inTail rel_apply operand negated) ?_
    refine C.rel_seq (C.rel_eat _) fun _ =>
      C.rel_ite _ (rel_likeTail rel_apply operand negated false level) ?_
    exact C.rel_seq (C.rel_eat _) fun _ =>
      C.rel_ite _ (rel_likeTail rel_apply operand negated true level) C.rel_fail

/-- Related rules parse what starts with a name alike. -/
theorem rel_nameOrCall (rel_current : C.rel Token.Alike current current)
    (rel_identifier : C.rel Eq identifier identifier) :
    C.rel Eq (nameOrCall apply) (nameOrCall apply') := by
  refine C.rel_seq C.rel_nextKind fun _ =>
    C.rel_ite _ (C.rel_bind rel_current fun first second like => ?_)
      (C.rel_map _ (C.rel_qualifiedName rel_identifier))
  rw [← like.geometryFunction]
  cases first.geometryFunction? with
  | some function => exact rel_apply (.geometry function)
  | none => exact rel_apply .functionCall

end

end ParserRelation

/-! ### Parsers that note lists of kinds -/

namespace NotingRelation

variable (C : NotingRelation) {α : Type}

/-- Failing with an expectation is related to itself. -/
theorem rel_failExpecting (kinds : List TokenKind) :
    C.rel (@Eq α) (failExpecting kinds) (failExpecting kinds) :=
  C.rel_then (C.rel_noteAll kinds) C.rel_fail

/-- The length of a type is read alike where tokens are the same. -/
theorem rel_typeLength (rel_current : C.rel Eq current current) :
    C.rel Eq typeLength typeLength := by
  refine C.rel_seq (C.rel_eat _) fun _ => C.rel_ite _ ?_ (C.rel_value none)
  refine C.rel_seq (C.rel_check _) fun _ => C.rel_ite _ ?_ C.rel_fail
  refine C.rel_seq rel_current fun token => ?_
  cases token.length? with
  | some length => exact C.rel_then C.rel_advance (C.rel_expectThen _ (C.rel_value _))
  | none => exact C.rel_failExpecting _

section

variable {C} (rel_current : C.rel Token.Alike current current)

include rel_current

/-- The target of a conversion is read alike if the length of a type is. -/
theorem rel_dataType (rel_typeLength : C.rel Eq typeLength typeLength) :
    C.rel Eq dataType dataType := by
  refine C.rel_bind rel_current fun first second like => ?_
  rw [← like.kind, ← like.simpleType]
  split
  · exact C.rel_then C.rel_advance (C.rel_then (C.rel_expectWord _) (C.rel_value _))
  · exact C.rel_then C.rel_advance (C.rel_seq rel_typeLength fun _ => C.rel_value _)
  · exact C.rel_then C.rel_advance (C.rel_seq rel_typeLength fun _ => C.rel_value _)
  · cases simpleType? first with
    | some type => exact C.rel_then C.rel_advance (C.rel_value type)
    | none => exact C.rel_failExpecting _

variable (rel_identifier : C.rel Eq identifier identifier)
  {apply apply' : (rule : Rule) → Parser rule.Result} {lookahead lookahead' : Bool}
  (rel_apply : ∀ rule, C.rel Eq (apply rule) (apply' rule))
  (parentheses : C.rel Eq (parenthesis lookahead apply) (parenthesis lookahead' apply'))

include rel_identifier rel_apply parentheses

/-- Related rules parse operands without prefix operator alike. -/
theorem rel_primary : C.rel Eq (primary lookahead apply) (primary lookahead' apply') := by
  refine C.rel_bind rel_current fun first second like => ?_
  rw [← like.kind, ← like.literal]
  cases first.literal? with
  | some value => exact C.rel_then C.rel_advance (C.rel_value _)
  | none =>
    dsimp only
    split
    · exact parentheses
    · exact rel_apply .case
    · exact rel_apply .cast
    · exact rel_apply .exists
    · exact rel_apply .aggregate
    · exact rel_apply .aggregate
    · exact rel_apply .aggregate
    · exact rel_apply .aggregate
    · exact rel_apply .aggregate
    · exact ParserRelation.rel_nameOrCall rel_apply rel_current rel_identifier
    · exact ParserRelation.rel_nameOrCall rel_apply rel_current rel_identifier
    · exact C.rel_failExpecting _

/-- Related rules parse operands alike. -/
theorem rel_operand : C.rel Eq (operand lookahead apply) (operand lookahead' apply') := by
  refine C.rel_seq C.rel_currentKind fun kind => ?_
  cases UnaryOp.ofToken? kind with
  | some op =>
    exact C.rel_then C.rel_advance <| C.rel_seq C.rel_precedence fun table =>
      C.rel_map _ (rel_apply (.operators (table.prefixLevel op)))
  | none => exact rel_primary rel_current rel_identifier rel_apply parentheses

omit rel_current rel_identifier parentheses in
/-- Related rules go on with a run of operators alike. -/
theorem rel_operatorStep (minLevel : Nat) (left : Expr) :
    C.rel Eq (operatorStep apply minLevel left) (operatorStep apply' minLevel left) := by
  refine C.rel_seq C.rel_precedence fun table => C.rel_seq C.rel_currentKind fun kind =>
    C.rel_seq C.rel_nextKind fun next => C.rel_ite _ ?_ ?_
  · exact C.rel_ite _ (C.rel_value _) (C.rel_map _ (ParserRelation.rel_predicateTail rel_apply left _))
  · refine C.rel_seq C.rel_currentKind fun kind => ?_
    cases table.ofToken? kind with
    | none => exact C.rel_then (C.rel_noteAll _) (C.rel_value _)
    | some found =>
      exact C.rel_ite _ (C.rel_value _) <| C.rel_then C.rel_advance <|
        C.rel_seq (rel_apply _) fun _ => C.rel_value _

end

/-- A relation is a congruence if all primitive parsers meet it. -/
def congruence (rel_current : C.rel Token.Alike current current)
    (rel_identifier : C.rel Eq identifier identifier) (rel_rowCount : C.rel Eq rowCount rowCount)
    (rel_typeLength : C.rel Eq typeLength typeLength)
    (rel_someItems : ∀ {α : Type} {p p' : Parser α}, C.rel Eq p p' →
      C.rel Eq (someItems p) (someItems p')) : Congruence where
  toParserRelation := C.toParserRelation
  rel_current := rel_current
  rel_identifier := rel_identifier
  rel_rowCount := rel_rowCount
  rel_someItems := rel_someItems
  rel_dataType := rel_dataType rel_current rel_typeLength
  rel_operand := rel_operand rel_current rel_identifier
  rel_operatorStep := rel_operatorStep

/-- A relation is a congruence if tokens are the same in both runs, and whether recovery is
possible. -/
def toCongruence (rel_current : C.rel Eq current current)
    (rel_advance : C.rel Eq advance advance) (rel_canRecover : C.rel Eq canRecover canRecover) :
    Congruence :=
  C.congruence (C.rel_alike rel_current) (C.rel_identifier rel_advance)
    (C.rel_rowCount rel_current) (C.rel_typeLength rel_current) (C.rel_someItems rel_canRecover)

end NotingRelation

namespace Congruence

variable (C : Congruence) {α β γ σ : Type}

/-! ### Expressions -/

section

variable {C} {apply apply' : (rule : Rule) → Parser rule.Result}
  (rel_apply : ∀ rule, C.rel Eq (apply rule) (apply' rule))

include rel_apply

/-- Related rules parse the argument of an aggregate function alike. -/
theorem rel_aggregateArgument (word : Keyword) :
    C.rel Eq (aggregateArgument apply word) (aggregateArgument apply' word) := by
  refine C.rel_seq (C.rel_ite _ (C.rel_eat _) (C.rel_value _)) fun _ =>
    C.rel_ite _ (C.rel_value _) ?_
  refine C.rel_seq (C.rel_eat _) fun _ => C.rel_ite _ ?_ ?_
  · exact C.rel_seq (rel_apply .expression) fun _ => C.rel_value _
  · exact C.rel_seq (C.rel_eat _) fun _ => C.rel_seq (rel_apply .expression) fun _ =>
      C.rel_value _

/-- Related rules parse the aggregate functions alike. -/
theorem rel_aggregate : C.rel Eq (aggregate apply) (aggregate apply') := by
  refine C.rel_bind C.rel_current fun first second like => ?_
  rw [← like.keyword]
  cases first.keyword? with
  | none => exact C.rel_fail
  | some word =>
    exact C.rel_then C.rel_advance <| C.rel_expectThen _ <|
      C.rel_seq (rel_aggregateArgument rel_apply word) fun _ => C.rel_expectThen _ (C.rel_value _)

/-- Related rules parse calls alike. -/
theorem rel_functionCall : C.rel Eq (functionCall apply) (functionCall apply') := by
  have arguments : C.rel Eq (callArguments apply) (callArguments apply') :=
    C.rel_seq (C.rel_check _) fun _ =>
      C.rel_ite _ (C.rel_value _) (ParserRelation.rel_expressions rel_apply)
  exact C.rel_seq C.rel_identifier fun _ => C.rel_expectThen _ <|
    C.rel_seq arguments fun _ => C.rel_expectThen _ (C.rel_value _)

/-- Related rules parse the arguments of geometry functions alike. -/
theorem rel_geometryStep (function : Geometry) (arguments : Array Expr) :
    C.rel Eq (geometryStep apply function arguments) (geometryStep apply' function arguments) := by
  refine C.rel_seq (rel_apply .expression) fun _ => C.rel_ite _ ?_ ?_
  · exact C.rel_expectThen _ (C.rel_value _)
  · refine C.rel_seq (C.rel_ite _ (C.rel_eat _) (C.rel_value _)) fun _ => ?_
    exact C.rel_ite _ (C.rel_value _) (C.rel_expectThen _ (C.rel_value _))

/-- Related rules parse the calls of geometry functions alike. -/
theorem rel_geometryCall (function : Geometry) :
    C.rel Eq (geometryCall apply function) (geometryCall apply' function) :=
  C.rel_then C.rel_advance <| C.rel_expectThen _ <|
    C.rel_seq (C.rel_iterate (rel_geometryStep rel_apply function) _) fun _ => C.rel_value _

/-- Related rules parse the branches of case distinctions alike. -/
theorem rel_branchStep (branches : Array Branch) :
    C.rel Eq (branchStep apply branches) (branchStep apply' branches) :=
  C.rel_seq (rel_apply .expression) fun _ => C.rel_then (C.rel_expectWord _) <|
    C.rel_seq (rel_apply .expression) fun _ => C.rel_seq (C.rel_eat _) fun _ =>
      C.rel_ite _ (C.rel_value _) (C.rel_value _)

/-- Related rules parse case distinctions alike. -/
theorem rel_caseDistinction : C.rel Eq (caseDistinction apply) (caseDistinction apply') := by
  have subject : C.rel Eq (caseSubject apply) (caseSubject apply') :=
    C.rel_seq (C.rel_check _) fun _ =>
      C.rel_ite _ (C.rel_value _) (C.rel_map some (rel_apply .expression))
  exact C.rel_then (C.rel_expectWord _) <| C.rel_seq subject fun _ => C.rel_then (C.rel_expectWord _) <|
    C.rel_seq (C.rel_iterate (rel_branchStep rel_apply) _) fun _ =>
      C.rel_seq (C.rel_afterWord _ _ (C.rel_map some (rel_apply .expression))) fun _ =>
        C.rel_then (C.rel_expectWord _) (C.rel_value _)

/-- Related rules parse conversions alike. -/
theorem rel_conversion : C.rel Eq (conversion apply) (conversion apply') :=
  C.rel_then (C.rel_expectWord _) <| C.rel_inParentheses <|
    C.rel_seq (rel_apply .expression) fun _ => C.rel_then (C.rel_expectWord _) <|
      C.rel_seq (rel_apply .dataType) fun _ => C.rel_value _

/-- Related rules parse what starts with a parenthesis alike. -/
theorem rel_parenthesis (lookahead : Bool) :
    C.rel Eq (parenthesis lookahead apply) (parenthesis lookahead apply') := by
  have either : C.rel Eq (eitherParenthesis apply) (eitherParenthesis apply') :=
    C.rel_firstOf (rel_apply .parenthesizedTrial) (rel_apply .subqueryTrial)
  refine C.rel_ite _ (C.rel_seq C.rel_nextKind fun _ => ?_) either
  refine C.rel_ite _ (rel_apply .scalarSubquery) (C.rel_seq C.rel_kindsAhead fun _ => ?_)
  exact C.rel_ite _ either (rel_apply .parenthesized)

/-- Related rules parse runs of operators alike. -/
theorem rel_operators {lookahead lookahead' : Bool}
    (parentheses : C.rel Eq (parenthesis lookahead apply) (parenthesis lookahead' apply'))
    (minLevel : Nat) :
    C.rel Eq (operators lookahead apply minLevel) (operators lookahead' apply' minLevel) :=
  C.rel_seq (C.rel_operand rel_apply parentheses) fun first =>
    C.rel_iterate (C.rel_operatorStep rel_apply minLevel) first

end

/-! ### Queries -/

/-- A name given to an item is related to itself. -/
theorem rel_aliasName : C.rel Eq aliasName aliasName :=
  C.rel_seq (C.rel_eat _) fun _ => C.rel_identifier

/-- Names in parentheses are related to themselves. -/
theorem rel_nameList : C.rel Eq nameList nameList :=
  C.rel_inParentheses (C.rel_oneOrMore _ C.rel_identifier)

/-- Related clauses stay related when their failure is survived. -/
theorem rel_clause {p p' : Parser α} (ifFailed : α) (h : C.rel Eq p p') :
    C.rel Eq (clause ifFailed p) (clause ifFailed p') :=
  C.rel_orRecover _ _ h

/-- A set operator is related to itself. -/
theorem rel_setOperator? : C.rel Eq setOperator? setOperator? :=
  C.rel_seq (C.rel_check _) fun _ => C.rel_ite _ (C.rel_value _) <|
    C.rel_seq (C.rel_check _) fun _ => C.rel_ite _ (C.rel_value _) <|
      C.rel_seq (C.rel_check _) fun _ => C.rel_ite _ (C.rel_value _) (C.rel_value _)

/-- Related operands go on with a run of set operators alike. -/
theorem rel_setStep {p p' : Parser QueryBody} (h : C.rel Eq p p') (level : Nat) (left : QueryBody) :
    C.rel Eq (setStep p level left) (setStep p' level left) := by
  refine C.rel_seq C.rel_setOperator? fun op? => ?_
  cases op? with
  | none => exact C.rel_value _
  | some op =>
    exact C.rel_ite _ (C.rel_value _) <| C.rel_then C.rel_advance <|
      C.rel_seq (C.rel_eat _) fun _ => C.rel_seq h fun _ => C.rel_value _

/-- Related operands may be joined by set operators. -/
theorem rel_setOperations {p p' : Parser QueryBody} (h : C.rel Eq p p') (level : Nat) :
    C.rel Eq (setOperations p level) (setOperations p' level) :=
  C.rel_seq h fun first => C.rel_iterate (C.rel_setStep h level) first

/-- Whether repeated rows are left out is read alike. -/
theorem rel_distinctness : C.rel Eq distinctness distinctness :=
  C.rel_seq (C.rel_eat _) fun _ =>
    C.rel_ite _ (C.rel_value _) (C.rel_seq (C.rel_eat _) fun _ => C.rel_value _)

/-- A part of a qualified wildcard is related to itself. -/
theorem rel_wildcardStep (state : Array Identifier × Bool) :
    C.rel Eq (wildcardStep state) (wildcardStep state) :=
  C.rel_expectThen _ <| C.rel_seq (C.rel_eat _) fun _ =>
    C.rel_ite _ (C.rel_value _) (C.rel_seq C.rel_identifier fun _ => C.rel_value _)

/-- A qualified wildcard is related to itself. -/
theorem rel_qualifiedWildcard : C.rel Eq qualifiedWildcard qualifiedWildcard :=
  C.rel_seq C.rel_identifier fun _ =>
    C.rel_seq (C.rel_iterate C.rel_wildcardStep _) fun _ => C.rel_value _

/-- The words of a join are related to themselves. -/
theorem rel_joinKind? (natural : Bool) : C.rel Eq (joinKind? natural) (joinKind? natural) := by
  have outer : C.rel Eq outerJoin? outerJoin? :=
    C.rel_seq (C.rel_eat _) fun _ => C.rel_ite _ (C.rel_value _) <|
      C.rel_seq (C.rel_eat _) fun _ => C.rel_ite _ (C.rel_value _) <|
        C.rel_seq (C.rel_eat _) fun _ => C.rel_ite _ (C.rel_value _) (C.rel_value _)
  have join (kind : JoinKind) : C.rel Eq
      (expectWord .JOIN >>= fun _ => pure (some kind))
      (expectWord .JOIN >>= fun _ => pure (some kind)) :=
    C.rel_then (C.rel_expectWord _) (C.rel_value _)
  refine C.rel_seq (C.rel_ite _ (C.rel_value _) (C.rel_eat _)) fun _ =>
    C.rel_ite _ (join .cross) ?_
  refine C.rel_seq (C.rel_eat _) fun _ => C.rel_ite _ (C.rel_value _) ?_
  refine C.rel_seq (C.rel_eat _) fun _ => C.rel_ite _ (join .inner) ?_
  refine C.rel_seq outer fun kind? => ?_
  cases kind? with
  | some kind => exact C.rel_seq (C.rel_eat _) fun _ => join kind
  | none => exact C.rel_ite _ C.rel_fail (C.rel_value _)

section

variable {C} {apply apply' : (rule : Rule) → Parser rule.Result}
  (rel_apply : ∀ rule, C.rel Eq (apply rule) (apply' rule))

include rel_apply

/-- Related rules parse queries alike. -/
theorem rel_query : C.rel Eq (query apply) (query apply') := by
  have keys : C.rel Eq (sortKeys apply) (sortKeys apply') :=
    C.rel_then (C.rel_expectWord _) (C.rel_oneOrMore _ (rel_apply .sortKey))
  refine C.rel_seq (C.rel_afterWord _ _ (C.rel_oneOrMore _ (rel_apply .commonTable))) fun _ => ?_
  refine C.rel_seq (rel_apply .queryBody) fun _ => ?_
  refine C.rel_seq (C.rel_afterWord _ _ (C.rel_clause _ keys)) fun _ => ?_
  exact C.rel_seq (C.rel_afterWord _ _ (C.rel_clause _ (C.rel_map some C.rel_rowCount)))
    fun _ => C.rel_value _

/-- Related rules parse named queries alike. -/
theorem rel_commonTable : C.rel Eq (commonTable apply) (commonTable apply') := by
  have columns : C.rel Eq columnNames columnNames :=
    C.rel_seq (C.rel_eat _) fun _ => C.rel_ite _
      (C.rel_seq (C.rel_oneOrMore _ C.rel_identifier) fun _ => C.rel_expectThen _ (C.rel_value _))
      (C.rel_value _)
  exact C.rel_seq C.rel_identifier fun _ => C.rel_seq columns fun _ =>
    C.rel_then (C.rel_expectWord _) <| C.rel_seq (ParserRelation.rel_parenthesizedQuery rel_apply) fun _ =>
      C.rel_value _

/-- Related rules parse sort keys alike. -/
theorem rel_sortKey : C.rel Eq (sortKey apply) (sortKey apply') :=
  C.rel_seq (rel_apply .expression) fun _ => C.rel_seq (C.rel_eat _) fun _ =>
    C.rel_ite _ (C.rel_value _) (C.rel_seq (C.rel_eat _) fun _ => C.rel_value _)

/-- Related rules parse the operands of set operators alike. -/
theorem rel_queryTerm : C.rel Eq (queryTerm apply) (queryTerm apply') := by
  refine C.rel_seq (C.rel_check _) fun _ => C.rel_ite _ ?_ ?_
  · exact C.rel_seq (rel_apply .querySpec) fun _ => C.rel_value _
  · exact C.rel_seq (C.rel_eat _) fun _ => C.rel_ite _
      (C.rel_seq (rel_apply .query) fun _ => C.rel_expectThen _ (C.rel_value _)) C.rel_fail

/-- Related rules parse a condition behind a word alike. -/
theorem rel_condition (word : Keyword) :
    C.rel Eq (condition apply word) (condition apply' word) :=
  C.rel_afterWord _ _ (C.rel_clause _ (C.rel_map some (rel_apply .expression)))

/-- Related rules parse specifications alike. -/
theorem rel_querySpec : C.rel Eq (querySpec apply) (querySpec apply') := by
  have tables : C.rel Eq (fromClause apply) (fromClause apply') :=
    C.rel_then (C.rel_expectWord _) (C.rel_oneOrMore _ (rel_apply .tableReference))
  have grouping : C.rel Eq (groups apply) (groups apply') :=
    C.rel_then (C.rel_expectWord _) (ParserRelation.rel_expressions rel_apply)
  refine C.rel_then (C.rel_expectWord _) <| C.rel_seq C.rel_distinctness fun _ => ?_
  refine C.rel_seq (C.rel_afterWord _ _ (C.rel_map some C.rel_rowCount)) fun _ => ?_
  refine C.rel_seq (rel_apply .selectList) fun _ => ?_
  refine C.rel_seq (C.rel_clause _ tables) fun _ => ?_
  refine C.rel_seq (rel_condition rel_apply _) fun _ => ?_
  refine C.rel_seq (C.rel_afterWord _ _ (C.rel_clause _ grouping)) fun _ => ?_
  exact C.rel_seq (rel_condition rel_apply _) fun _ => C.rel_value _

/-- Related rules parse select lists alike. -/
theorem rel_selectList : C.rel Eq (selectList apply) (selectList apply') :=
  C.rel_seq (C.rel_eat _) fun _ =>
    C.rel_ite _ (C.rel_value _) (C.rel_someItems (rel_apply .selectItem))

/-- Related rules parse expressions with optional names alike. -/
theorem rel_derivedColumn : C.rel Eq (derivedColumn apply) (derivedColumn apply') :=
  C.rel_seq (rel_apply .expression) fun _ =>
    C.rel_seq (C.rel_optional (rel_apply .aliasName)) fun _ => C.rel_value _

/-- Related rules parse select items alike. -/
theorem rel_selectItem : C.rel Eq (selectItem apply) (selectItem apply') :=
  C.rel_seq C.rel_currentKind fun _ => C.rel_seq C.rel_nextKind fun _ =>
    C.rel_ite _ (C.rel_firstOf (rel_apply .qualifiedWildcard) (rel_apply .derivedColumn))
      (rel_derivedColumn rel_apply)

/-- Related rules parse the constraints of joins alike. -/
theorem rel_joinConstraint (free : Bool) :
    C.rel Eq (joinConstraint apply free) (joinConstraint apply' free) :=
  C.rel_ite _ (C.rel_value _) <| C.rel_seq (C.rel_eat _) fun _ => C.rel_ite _
    (C.rel_seq (rel_apply .expression) fun _ => C.rel_value _) <|
    C.rel_seq (C.rel_eat _) fun _ =>
      C.rel_ite _ (C.rel_seq C.rel_nameList fun _ => C.rel_value _) C.rel_fail

/-- Related rules parse joins alike. -/
theorem rel_joinStep (left : TableRef) : C.rel Eq (joinStep apply left) (joinStep apply' left) := by
  refine C.rel_seq (C.rel_eat _) fun natural => C.rel_seq (C.rel_joinKind? natural) fun kind? => ?_
  cases kind? with
  | none => exact C.rel_value _
  | some kind =>
    exact C.rel_seq (rel_apply .tablePrimary) fun _ =>
      C.rel_seq (rel_joinConstraint rel_apply _) fun _ => C.rel_value _

/-- Related rules parse tables with joins alike. -/
theorem rel_tableReference : C.rel Eq (tableReference apply) (tableReference apply') :=
  C.rel_seq (rel_apply .tablePrimary) fun first => C.rel_iterate (rel_joinStep rel_apply) first

/-- Related rules parse single tables alike. -/
theorem rel_tablePrimary : C.rel Eq (tablePrimary apply) (tablePrimary apply') :=
  C.rel_seq (C.rel_check _) fun _ => C.rel_ite _
    (C.rel_firstOf (rel_apply .derivedTable) (rel_apply .nestedTable)) <|
    C.rel_seq (C.rel_qualifiedName C.rel_identifier) fun _ =>
      C.rel_seq (C.rel_optional (rel_apply .aliasName)) fun _ => C.rel_value _

/-- Related rules parse queries that stand for tables alike. -/
theorem rel_derivedTable : C.rel Eq (derivedTable apply) (derivedTable apply') :=
  C.rel_seq (ParserRelation.rel_parenthesizedQuery rel_apply) fun _ =>
    C.rel_seq C.rel_aliasName fun _ => C.rel_value _

/-- Related rules parse joins in parentheses alike. -/
theorem rel_nestedTable : C.rel Eq (nestedTable apply) (nestedTable apply') :=
  C.rel_map _ (C.rel_inParentheses (rel_apply .tableReference))

/-! ### Bodies of rules -/

/-- Rules built from related rules are related, whether they look ahead at parentheses or not, as long
as this makes no difference to what is read there. -/
theorem rel_bodies {lookahead lookahead' : Bool}
    (parentheses : C.rel Eq (parenthesis lookahead apply) (parenthesis lookahead' apply'))
    (rule : Rule) :
    C.rel Eq (body lookahead apply rule) (body lookahead' apply' rule) := by
  cases rule with
  | query => exact rel_query rel_apply
  | queryBody =>
    exact C.rel_setOperations (C.rel_setOperations (rel_apply .queryTerm) _) _
  | queryTerm => exact rel_queryTerm rel_apply
  | querySpec => exact rel_querySpec rel_apply
  | selectList => exact rel_selectList rel_apply
  | selectItem => exact rel_selectItem rel_apply
  | qualifiedWildcard => exact C.rel_qualifiedWildcard
  | derivedColumn => exact rel_derivedColumn rel_apply
  | aliasName => exact C.rel_aliasName
  | tableReference => exact rel_tableReference rel_apply
  | tablePrimary => exact rel_tablePrimary rel_apply
  | derivedTable => exact rel_derivedTable rel_apply
  | nestedTable => exact rel_nestedTable rel_apply
  | commonTable => exact rel_commonTable rel_apply
  | sortKey => exact rel_sortKey rel_apply
  | expression => exact rel_apply (.operators 0)
  | operators minLevel => exact rel_operators rel_apply parentheses minLevel
  | parenthesized => exact C.rel_map _ (C.rel_inParentheses (rel_apply .expression))
  | parenthesizedTrial => exact rel_apply .parenthesized
  | scalarSubquery => exact C.rel_map _ (ParserRelation.rel_parenthesizedQuery rel_apply)
  | subqueryTrial => exact rel_apply .scalarSubquery
  | «exists» =>
    exact C.rel_then (C.rel_expectWord _) (C.rel_map _ (ParserRelation.rel_parenthesizedQuery rel_apply))
  | aggregate => exact rel_aggregate rel_apply
  | functionCall => exact rel_functionCall rel_apply
  | geometry function => exact rel_geometryCall rel_apply function
  | case => exact rel_caseDistinction rel_apply
  | cast => exact rel_conversion rel_apply
  | dataType => exact C.rel_dataType

/-- Rules built from related rules are related. -/
theorem rel_body (lookahead : Bool) (rule : Rule) :
    C.rel Eq (body lookahead apply rule) (body lookahead apply' rule) :=
  rel_bodies rel_apply (rel_parenthesis rel_apply lookahead) rule

end

end Congruence

end Adql
