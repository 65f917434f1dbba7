import Adql.Proofs.Expected.Notes
import Adql.Proofs.Grammar.Layout
import Adql.Proofs.Shape.Statements

/-!
# Kinds that were looked for in vain

A diagnostic lists the kinds that would have been accepted where the parse failed.  The kind of the
token that stands there is not among them, since a kind is noted when it was looked for and not
found; but there are three parsers that note a list of kinds after a look at more than the kind of
the current token, and each of them leads to an exception (`Overlooked`).  `NOT` is one of the words
that continue an operand, though it does so only in front of another word; an identifier may name a
type, though most do not; and an integer may be too large for the length of a type.

`Session.InVain` says of a session that its notes and diagnostics list no kind that stands there,
these exceptions apart.  Every parser of the grammar keeps this.
-/

namespace Adql

open Adql.Parser Adql.Grammar

/-- Among the kinds expected at a position is the kind of the token that stands there, because more
was asked of the token than its kind. -/
inductive Overlooked (tokenAt : Nat → Token) (position : Nat) (expected : KindSet) : Prop
  /-- No word of a predicate that `NOT` could negate follows. -/
  | negation : (tokenAt position).kind = .keyword .NOT →
      isNegatable (tokenAt (position + 1)).kind = false → Overlooked tokenAt position expected
  /-- The identifier names no type. -/
  | typeName : (tokenAt position).kind = .identifier → simpleType? (tokenAt position) = none →
      (∀ kind ∈ dataTypeStart, kind ∈ expected) → Overlooked tokenAt position expected
  /-- The integer is too large for the length of a type. -/
  | typeLength {before : Nat} : position = before + 2 →
      (tokenAt before).kind = .keyword .CHAR ∨ (tokenAt before).kind = .keyword .VARCHAR →
      (tokenAt (before + 1)).kind = .leftParen → (tokenAt position).kind = .integer →
      (tokenAt position).length? = none → Overlooked tokenAt position expected

/-- The kinds expected at a position were looked for in vain: the kind of the token that stands
there is none of them, or there was more to it. -/
def InVain (tokenAt : Nat → Token) (position : Nat) (expected : KindSet) : Prop :=
  (tokenAt position).kind ∈ expected → Overlooked tokenAt position expected

/-- More kinds may be expected. -/
theorem Overlooked.mono {tokenAt : Nat → Token} {position : Nat} {expected expected' : KindSet}
    (h : Overlooked tokenAt position expected) (more : ∀ kind ∈ expected, kind ∈ expected') :
    Overlooked tokenAt position expected' := by
  cases h with
  | negation here next => exact .negation here next
  | typeName here noType types =>
    exact .typeName here noType fun kind found => more kind (types kind found)
  | typeLength behind word opening here tooLarge =>
    exact .typeLength behind word opening here tooLarge

/-- The diagnostic lists kinds that were looked for in vain at one of the tokens, if it is about an
unexpected token. -/
def Diagnostic.InVain (tokenAt : Nat → Token) (error : Diagnostic) : Prop :=
  ∀ expected found, error.cause = .unexpected expected found →
    ∃ position rules, error = .unexpected (tokenAt position) expected rules ∧
      Adql.InVain tokenAt position expected

/-- The notes and the diagnostics list kinds that were looked for in vain. -/
structure Session.InVain (session : Session) : Prop where
  /-- The tokens are those of a text. -/
  genuine : session.cursor.Genuine
  /-- The notes list kinds that were looked for in vain. -/
  notes : ∀ furthest, session.furthest = some furthest →
    Adql.InVain session.cursor.tokenAt furthest.position furthest.expected
  /-- The diagnostics list kinds that were looked for in vain. -/
  errors : ∀ error ∈ session.errors.toList, error.InVain session.cursor.tokenAt

namespace TokenCursor

/-- The tokens of a text stay those of a text when the cursor moves on. -/
theorem Genuine.advance {cursor : TokenCursor} (h : cursor.Genuine) : cursor.advance.Genuine := by
  unfold TokenCursor.advance
  split
  · exact ⟨h.final, h.tokens⟩
  · exact h

/-- In front of a token that is no end marker, the cursor moves on by one place. -/
theorem Genuine.position_advance {cursor : TokenCursor} (h : cursor.Genuine)
    (inner : cursor.current.kind ≠ .eof) : cursor.advance.position = cursor.position + 1 := by
  rcases cursor.current_cases with ⟨inside, _⟩ | ⟨_, same⟩
  · unfold TokenCursor.advance
    rw [if_pos inside]
  · exact absurd (same ▸ h.final) inner

end TokenCursor

namespace Session.InVain

variable {session : Session}

/-- What is noted at a position was looked for there in vain. -/
theorem notedAt (h : session.InVain) {position : Nat}
    (noted : (session.cursor.tokenAt position).kind ∈ session.notedAt position) :
    Overlooked session.cursor.tokenAt position (session.notedAt position) := by
  obtain ⟨furthest, notes, rfl, found⟩ := exists_of_mem_notedAt noted
  rw [notedAt_of_some notes]
  exact h.notes furthest notes found

/-- The cursor may move on. -/
theorem advance (h : session.InVain) :
    InVain { session with cursor := session.cursor.advance } where
  genuine := h.genuine.advance
  notes := by
    change ∀ furthest, session.furthest = some furthest →
      Adql.InVain session.cursor.advance.tokenAt furthest.position furthest.expected
    rw [session.cursor.tokenAt_advance]
    exact h.notes
  errors := by
    change ∀ error ∈ session.errors.toList, error.InVain session.cursor.advance.tokenAt
    rw [session.cursor.tokenAt_advance]
    exact h.errors

/-- Kinds may be noted if the current token is none of them, or if it was overlooked. -/
theorem foldl_noting (h : session.InVain) (kinds : List TokenKind)
    (fine : session.current.kind ∈ kinds → ∀ expected : KindSet,
      (∀ kind ∈ kinds, kind ∈ expected) →
        Overlooked session.cursor.tokenAt session.cursor.position expected) :
    (kinds.foldl noting session).InVain := by
  cases kinds with
  | nil => exact h
  | cons kind kinds =>
    by_cases ahead : session.NotesAhead
    · rw [foldl_noting_of_ahead ahead]
      exact h
    · obtain ⟨furthest, noted, here, members⟩ := exists_foldl_noting ahead kind kinds
      rw [noted]
      refine { h with notes := ?_ }
      rintro _ ⟨⟩ found
      change (session.cursor.tokenAt furthest.position).kind ∈ furthest.expected at found
      change Overlooked session.cursor.tokenAt furthest.position furthest.expected
      rw [here] at found ⊢
      obtain listed | earlier := (members _).mp found
      · exact fine listed _ fun kind found => (members kind).mpr (.inl found)
      · exact (h.notedAt earlier).mono fun kind found => (members kind).mpr (.inr found)

/-- A kind may be noted if the current token is another one. -/
theorem noting (h : session.InVain) {kind : TokenKind} (other : session.current.kind ≠ kind) :
    (session.noting kind).InVain :=
  h.foldl_noting [kind] fun found => absurd (List.mem_singleton.mp found) other

/-- A failure lists what was noted. -/
theorem failure (h : session.InVain) :
    Adql.InVain session.cursor.tokenAt session.failure.position session.failure.expected := by
  unfold Session.failure
  cases notes : session.furthest with
  | none => exact fun found => absurd found (KindSet.not_mem_empty _)
  | some furthest => exact h.notes furthest notes

/-- A failure may be reported if it lists what was looked for in vain. -/
theorem reporting (h : session.InVain) {failure : Failure}
    (vain : Adql.InVain session.cursor.tokenAt failure.position failure.expected) :
    (session.reporting failure).InVain where
  genuine := h.genuine
  notes := nofun
  errors := by
    rw [errors_reporting]
    refine List.forall_mem_append.mpr ⟨h.errors, List.forall_mem_singleton.mpr ?_⟩
    rintro _ _ ⟨⟩
    exact ⟨failure.position, failure.rules.reverse, rfl, vain⟩

/-- A limit may end the parse. -/
theorem haltedBy (h : session.InVain) {cause : DiagnosticCause}
    (limit : (Diagnostic.atToken session.current cause).isLimit = true) :
    (session.haltedBy cause).InVain where
  genuine := h.genuine
  notes := h.notes
  errors := by
    rw [Session.haltedBy, Array.toList_push]
    refine List.forall_mem_append.mpr ⟨h.errors, List.forall_mem_singleton.mpr ?_⟩
    intro expected found same
    rw [Diagnostic.isLimit, same] at limit
    cases limit

/-- Notes may be dropped. -/
theorem dropNotesAhead (h : session.InVain) : (Parser.dropNotesAhead session).InVain := by
  unfold Parser.dropNotesAhead
  cases notes : session.furthest with
  | none => exact h
  | some furthest =>
    dsimp only
    split
    · exact { h with notes := nofun }
    · exact h

/-- A rule that failed may be closed. -/
theorem outsideFailed (h : session.InVain) (rule : Rule) (start : Nat) :
    (Parser.outsideFailed rule start session).InVain := by
  unfold Parser.outsideFailed
  split
  · exact ⟨⟨h.genuine.final, h.genuine.tokens⟩, h.notes, h.errors⟩
  · exact { h with }

end Session.InVain

/-! ### Runs -/

variable {α β : Type}

/-- Whatever was looked for in a run that is over was looked for in vain. -/
def EndsInVain : EStateM.Result Failure Session α → Prop
  | .ok _ after => after.InVain
  | .error failure after => after.InVain ∧
      InVain after.cursor.tokenAt failure.position failure.expected

/-- The parser looks for kinds in vain only. -/
def LooksInVain (parser : Parser α) : Prop :=
  ∀ before : Session, before.InVain → EndsInVain (parser before)

namespace LooksInVain

variable {p q : Parser α} {f : α → Parser β} {before : Session}

/-- A failure that lists the notes. -/
theorem fail : LooksInVain (fail : Parser α) :=
  fun _ h => ⟨h, h.failure⟩

/-- A failure for good lists nothing. -/
theorem fatality (h : before.InVain) {session : Session} :
    EndsInVain (.error session.fatality before : EStateM.Result Failure Session α) :=
  ⟨h, fun found => absurd found (KindSet.not_mem_empty _)⟩

/-- A parser behind another one. -/
theorem bind_run (h : EndsInVain (p before))
    (hf : ∀ value after, p before = .ok value after → after.InVain → EndsInVain (f value after)) :
    EndsInVain ((p >>= f) before) := by
  change EndsInVain (EStateM.bind p f before)
  unfold EStateM.bind
  cases run : p before with
  | ok value after =>
    rw [run] at h
    exact hf value after run h
  | error failure after =>
    rw [run] at h
    exact h

/-- A parser behind another one. -/
theorem bind (hp : LooksInVain p) (hf : ∀ value, LooksInVain (f value)) : LooksInVain (p >>= f) :=
  fun before h => bind_run (hp before h) fun value after _ h => hf value after h

/-- A value is yielded at once. -/
theorem pure (value : α) : LooksInVain (Pure.pure value) :=
  fun _ h => h

/-- The cursor moves on. -/
theorem advance : LooksInVain advance :=
  fun _ h => h.advance

/-- A look at the current token. -/
theorem current_bind {f : Token → Parser β} (h : EndsInVain (f before.current before)) :
    EndsInVain ((current >>= f) before) :=
  h

/-- A look at the kind of the current token. -/
theorem currentKind_bind {f : TokenKind → Parser β}
    (h : EndsInVain (f before.current.kind before)) : EndsInVain ((currentKind >>= f) before) :=
  h

/-- A look at the kind of the next token. -/
theorem nextKind_bind {f : TokenKind → Parser β}
    (h : EndsInVain (f (before.cursor.tokenAt (before.cursor.position + 1)).kind before)) :
    EndsInVain ((nextKind >>= f) before) :=
  h

/-- A look at the precedence of the operators. -/
theorem precedence_bind {f : PrecedenceTable → Parser β}
    (h : EndsInVain (f before.settings.precedence before)) :
    EndsInVain ((precedence >>= f) before) :=
  h

/-- A kind is noted if the current token is another one. -/
theorem check (kind : TokenKind) : LooksInVain (check kind) := by
  intro before h
  rw [check_run]
  split
  · exact h
  · exact h.noting ‹_›

/-- A list of kinds is noted where the current token is none of them or was overlooked. -/
theorem failExpecting (h : before.InVain) {kinds : List TokenKind}
    (fine : before.current.kind ∈ kinds → ∀ expected : KindSet,
      (∀ kind ∈ kinds, kind ∈ expected) →
        Overlooked before.cursor.tokenAt before.cursor.position expected) :
    EndsInVain (failExpecting kinds before : EStateM.Result Failure Session α) :=
  fail _ (h.foldl_noting kinds fine)

/-- A parser that is tried. -/
theorem speculate (hp : LooksInVain p) : LooksInVain (speculate p) := by
  intro before h
  have tried := hp before.trying { h with }
  cases run : p before.trying with
  | ok value after =>
    rw [run] at tried
    rw [speculate_ok run]
    exact { tried with }
  | error failure after =>
    rw [run] at tried
    rw [speculate_error run]
    exact ⟨{ tried.1 with }, tried.2⟩

/-- An alternative of a choice. -/
theorem alternative (hp : LooksInVain p) : LooksInVain (alternative p) :=
  hp.speculate.bind fun _ _ h => h.dropNotesAhead

/-- A choice between two parsers. -/
theorem firstOf (hp : LooksInVain p) (hq : LooksInVain q) : LooksInVain (firstOf p q) := by
  intro before h
  have tried := hp.alternative before h
  unfold Parser.firstOf
  cases run : Parser.alternative p before with
  | ok value after =>
    rw [run] at tried
    exact tried
  | error failure after =>
    rw [run] at tried
    dsimp only
    split
    · exact tried
    · exact hq.alternative after tried.1

/-- A part that may be missing. -/
theorem optional (hp : LooksInVain p) : LooksInVain (optional p) := by
  intro before h
  have tried := hp.speculate before h
  unfold Parser.optional
  cases run : Parser.speculate p before with
  | ok value after =>
    rw [run] at tried
    exact tried
  | error failure after =>
    rw [run] at tried
    dsimp only
    split
    · exact tried
    · exact tried.1

/-- A failure is passed on, or reported. -/
theorem recoverFrom {failure : Failure} (sync : List TokenKind) (h : before.InVain)
    (vain : InVain before.cursor.tokenAt failure.position failure.expected) :
    EndsInVain (recoverFrom failure sync before) := by
  rw [recoverFrom_run]
  split
  · exact ⟨h, vain⟩
  · have reported := h.reporting vain
    dsimp only
    split
    · exact fatality reported
    · exact ⟨⟨reported.genuine.final, reported.genuine.tokens⟩, reported.notes, reported.errors⟩

/-- A parser whose failures are survived. -/
theorem orRecover (hp : LooksInVain p) (sync : List TokenKind) (ifFailed : α) :
    LooksInVain (orRecover p sync ifFailed) := by
  intro before h
  have tried := hp before h
  unfold Parser.orRecover
  cases run : p before with
  | ok value after =>
    rw [run] at tried
    exact tried
  | error failure after =>
    rw [run] at tried
    exact bind_run (recoverFrom sync tried.1 tried.2) fun _ _ _ h => h

/-- The body of a rule. -/
theorem nested (rule : Rule) (hp : LooksInVain p) : LooksInVain (nested rule p) := by
  intro before h
  have inner := hp (inside rule before) { h with }
  unfold Parser.nested
  cases run : p (inside rule before) with
  | ok value after =>
    rw [run] at inner
    exact { inner with }
  | error failure after =>
    rw [run] at inner
    refine ⟨inner.1.outsideFailed rule _, ?_⟩
    unfold Parser.outsideFailed
    split
    · exact inner.2
    · exact inner.2

/-- The application of a rule is counted. -/
theorem countRule (rule : Rule) : LooksInVain (countRule rule) := by
  intro before h
  unfold Grammar.countRule
  split
  · rw [countInvocation_run]
    split
    · exact fatality h
    · have counted : before.counted.InVain := { h with }
      cases overBudget before.counted with
      | some limit => exact fatality (counted.haltedBy rfl)
      | none => exact counted
  · exact h

/-- A refusal to nest deeper. -/
theorem refuseDepth : LooksInVain (refuseDepth : Parser α) := by
  intro before h
  rw [refuseDepth_run]
  dsimp only
  split
  · exact fatality h
  · exact fatality (h.haltedBy rfl)

end LooksInVain

/-- Looking for kinds in vain is kept by the ways to combine parsers. -/
def vainParsers : ParserRelation where
  rel V p q := moving.rel V p q ∧ LooksInVain p
  rel_pure value := ⟨moving.rel_pure value, .pure _⟩
  rel_bind hp hf := by
    refine ⟨moving.rel_bind hp.1 fun a b value => (hf a b value).1, fun before h => ?_⟩
    refine LooksInVain.bind_run (hp.2 before h) fun a after run h => ?_
    obtain ⟨b, value⟩ := (hp.1.1 before).value run
    exact (hf a b value).2 after h
  rel_currentKind := ⟨moving.rel_currentKind, fun _ h => h⟩
  rel_nextKind := ⟨moving.rel_nextKind, fun _ h => h⟩
  rel_kindsAhead := ⟨moving.rel_kindsAhead, fun _ h => h⟩
  rel_remaining := ⟨moving.rel_remaining, fun _ h => h⟩
  rel_precedence := ⟨moving.rel_precedence, fun _ h => h⟩
  rel_advance := ⟨moving.rel_advance, .advance⟩
  rel_check kind := ⟨moving.rel_check kind, .check kind⟩
  rel_fail := ⟨moving.rel_fail, .fail⟩
  rel_firstOf hp hq := ⟨moving.rel_firstOf hp.1 hq.1, .firstOf hp.2 hq.2⟩
  rel_optional hp := ⟨moving.rel_optional hp.1, .optional hp.2⟩
  rel_orRecover sync ifFailed hp :=
    ⟨moving.rel_orRecover sync ifFailed hp.1, .orRecover hp.2 sync ifFailed⟩

/-! ### Operands -/

/-- Tokens of texts that can be literals are literals. -/
theorem Token.Genuine.literal?_ne_none {token : Token} (h : token.Genuine)
    (kind : token.kind ∈
      [.keyword .TRUE, .keyword .FALSE, .keyword .NULL, .integer, .real, .string]) :
    token.literal? ≠ none := by
  intro missing
  unfold literal? at missing
  simp only [List.mem_cons, List.not_mem_nil, or_false] at kind
  rcases kind with kind | kind | kind | kind | kind | kind
  · rw [kind] at missing
    cases missing
  · rw [kind] at missing
    cases missing
  · rw [kind] at missing
    cases missing
  · obtain ⟨count, counts⟩ := h.counts kind
    obtain ⟨value, integer, _⟩ := Option.bind_eq_some_iff.mp counts
    rw [kind, integer] at missing
    cases missing
  · obtain ⟨value, real⟩ := h.reals kind
    rw [kind, real] at missing
    cases missing
  · rw [kind] at missing
    cases missing

/-- An operand that is neither a literal nor starts with a prefix operator starts with one of these
kinds, if it starts with a kind that can start an operand. -/
theorem starts_of_operandStart {token : Token} (genuine : token.Genuine)
    (noPrefix : UnaryOp.ofToken? token.kind = none) (noLiteral : token.literal? = none)
    (start : token.kind ∈ operandStart) :
    token.kind ∈ [.keyword .EXISTS, .keyword .CASE, .keyword .CAST, .keyword .COUNT, .keyword .SUM,
      .keyword .AVG, .keyword .MIN, .keyword .MAX, .identifier, .delimitedIdentifier,
      .leftParen] := by
  have known : ∀ kind ∈ operandStart, UnaryOp.ofToken? kind = none →
      kind ∉ [.keyword .TRUE, .keyword .FALSE, .keyword .NULL, .integer, .real, .string] →
      kind ∈ [.keyword .EXISTS, .keyword .CASE, .keyword .CAST, .keyword .COUNT, .keyword .SUM,
        .keyword .AVG, .keyword .MIN, .keyword .MAX, .identifier, .delimitedIdentifier,
        .leftParen] := by decide
  exact known _ start noPrefix (mt genuine.literal?_ne_none (not_not.mpr noLiteral))

/-- The kinds of operators that continue a run at a level are those of the table. -/
theorem mem_infixTokens {table : PrecedenceTable} {minLevel : Nat} {kind : TokenKind}
    (found : kind ∈ table.infixTokens minLevel) : table.ofToken? kind ≠ none := by
  obtain ⟨entry, listed, rfl⟩ := List.mem_map.mp found
  have there : (table.binary.find? (·.op = entry.op)).isSome := by
    rw [List.find?_isSome]
    exact ⟨entry, (List.mem_filter.mp listed).1, decide_eq_true rfl⟩
  obtain ⟨first, same⟩ := Option.isSome_iff_exists.mp there
  simp [PrecedenceTable.ofToken?, PrecedenceTable.binding?, same]

/-- A kind that continues a run of operators at a level stands behind an operand that it does not
continue only if it is `NOT`, in front of what it cannot negate. -/
theorem negation_of_continuation {table : PrecedenceTable} {minLevel : Nat} {kind next : TokenKind}
    (noPredicate : ¬startsPredicate kind next = true) (noOperator : table.ofToken? kind = none)
    (found : kind ∈ continuations table minLevel) :
    kind = .keyword .NOT ∧ isNegatable next = false := by
  obtain listed | predicate := List.mem_append.mp found
  · exact absurd noOperator (mem_infixTokens listed)
  · have start : kind ∈ predicateStart := by
      split at predicate
      · exact predicate
      · cases predicate
    have known : ∀ kind ∈ predicateStart, kind ≠ .keyword .NOT →
        ∀ next, startsPredicate kind next = true := by
      intro kind start other next
      simp only [predicateStart, List.mem_cons, List.not_mem_nil, or_false] at start
      rcases start with rfl | rfl | rfl | rfl | rfl | rfl
      · rfl
      · exact absurd rfl other
      all_goals rfl
    by_cases negation : kind = .keyword .NOT
    · subst negation
      exact ⟨rfl, Bool.eq_false_iff.mpr noPredicate⟩
    · exact absurd (known kind start negation next) noPredicate

/-- Of the kinds that can start a type, only an identifier may name none. -/
theorem identifier_of_dataTypeStart {token : Token} (noType : simpleType? token = none)
    (start : token.kind ∈ dataTypeStart) (noDouble : token.kind ≠ .keyword .DOUBLE)
    (noChar : token.kind ≠ .keyword .CHAR) (noVarchar : token.kind ≠ .keyword .VARCHAR) :
    token.kind = .identifier := by
  unfold simpleType? at noType
  simp only [dataTypeStart, List.mem_cons, List.not_mem_nil, or_false, noDouble, noChar, noVarchar,
    false_or] at start
  rcases start with start | start | start | start | start | start
  all_goals simp_all

namespace LooksInVain

section

variable {apply : (rule : Rule) → Parser rule.Result} {lookahead : Bool}
  (rules : ∀ rule, LooksInVain (apply rule))

include rules

/-- Where no operand starts, no kind was overlooked. -/
theorem operand (parentheses : LooksInVain (parenthesis lookahead apply))
    (names : LooksInVain (nameOrCall apply)) : LooksInVain (operand lookahead apply) := by
  intro before h
  unfold Grammar.operand
  refine currentKind_bind ?_
  cases noPrefix : UnaryOp.ofToken? before.current.kind with
  | some op =>
    refine advance.bind (fun _ => ?_) before h
    exact fun before h => precedence_bind <|
      ((rules (.operators (before.settings.precedence.prefixLevel op))).bind fun _ => pure _)
        before h
  | none =>
    unfold primary
    refine current_bind ?_
    cases noLiteral : before.current.literal? with
    | some value => exact advance.bind (fun _ => pure _) before h
    | none =>
      have starts : before.current.kind ∈ operandStart → _ :=
        starts_of_operandStart h.genuine.current noPrefix noLiteral
      have expecting := @failExpecting Expr before h operandStart
      dsimp only
      generalize before.current.kind = kind at starts expecting
      split
      · exact parentheses before h
      · exact rules .case before h
      · exact rules .cast before h
      · exact rules .exists before h
      · exact rules .aggregate before h
      · exact rules .aggregate before h
      · exact rules .aggregate before h
      · exact rules .aggregate before h
      · exact rules .aggregate before h
      · exact names before h
      · exact names before h
      · exact expecting fun start => absurd (starts start) (by simp_all)

/-- Where a run of operators ends, the word `NOT` may have been overlooked. -/
theorem operatorStep (minLevel : Nat) (left : Expr)
    (tails : ∀ level, LooksInVain (predicateTail apply left level)) :
    LooksInVain (operatorStep apply minLevel left) := by
  intro before h
  unfold Grammar.operatorStep
  refine precedence_bind (currentKind_bind (nextKind_bind ?_))
  split
  · split
    · exact h
    · rw [map_eq_pure_bind]
      exact (tails _).bind (fun _ => pure _) before h
  · next noPredicate =>
    refine currentKind_bind ?_
    cases noOperator : before.settings.precedence.ofToken? before.current.kind with
    | none =>
      refine h.foldl_noting (continuations _ minLevel) fun found expected _ => ?_
      obtain ⟨here, next⟩ := negation_of_continuation noPredicate noOperator found
      exact .negation here next
    | some found =>
      dsimp only
      split
      · exact h
      · exact advance.bind (fun _ => (rules _).bind fun _ => pure _) before h

end

/-- The length of a type may be too large. -/
theorem typeLength {before : Session} {start : Nat} (h : before.InVain)
    (behind : before.cursor.position = start + 1)
    (word : (before.cursor.tokenAt start).kind = .keyword .CHAR ∨
      (before.cursor.tokenAt start).kind = .keyword .VARCHAR) :
    EndsInVain (typeLength before) := by
  unfold Grammar.typeLength
  refine bind_run ((vainParsers.rel_eat .leftParen).2 before h) fun there inside run h' => ?_
  rw [eat_run] at run
  split at run
  · next opening =>
    cases run
    have next : before.cursor.advance.position = start + 2 := by
      rw [h.genuine.position_advance (opening ▸ by decide), behind]
    have closing (length : Option UInt32) :=
      (vainParsers.rel_expectThen .rightParen (vainParsers.rel_value length)).2
    refine bind_run (check .integer _ h') fun number after run h'' => ?_
    rw [check_run] at run
    split at run
    · next integer =>
      cases run
      refine current_bind ?_
      dsimp only [Session.current] at integer ⊢
      cases large : before.cursor.advance.current.length? with
      | some length => exact advance.bind (fun _ => closing (some length)) _ h'
      | none =>
        refine failExpecting h' fun _ expected _ => ?_
        have number :
            (before.cursor.advance.tokenAt before.cursor.advance.position).kind = .integer := integer
        have large :
            (before.cursor.advance.tokenAt before.cursor.advance.position).length? = none := large
        change Overlooked before.cursor.advance.tokenAt before.cursor.advance.position expected
        rw [before.cursor.tokenAt_advance] at number large ⊢
        exact .typeLength next word (behind ▸ opening) number large
    · cases run
      exact fail _ h''
  · cases run
    exact h'

/-- Where no type starts, an identifier may have been overlooked. -/
theorem dataType : LooksInVain dataType := by
  intro before h
  have expecting := @failExpecting DataType before h dataTypeStart
  have sized (type : Option UInt32 → DataType)
      (word : before.current.kind = .keyword .CHAR ∨ before.current.kind = .keyword .VARCHAR) :
      EndsInVain ((do let _ ← Parser.advance; Pure.pure (type (← Grammar.typeLength)) :
        Parser DataType) before) := by
    refine bind_run (advance before h) fun _ after run h' => ?_
    cases run
    have moved : before.cursor.advance.position = before.cursor.position + 1 := by
      refine h.genuine.position_advance ?_
      change before.current.kind ≠ .eof
      rcases word with word | word
      · rw [word]
        decide
      · rw [word]
        decide
    refine bind_run (typeLength h' moved ?_) fun _ _ _ h => h
    change (before.cursor.advance.tokenAt before.cursor.position).kind = _ ∨
      (before.cursor.advance.tokenAt before.cursor.position).kind = _
    rw [TokenCursor.tokenAt_advance]
    exact word
  unfold Grammar.dataType
  refine current_bind ?_
  generalize here : before.current.kind = kind
  split
  · exact advance.bind (fun _ => ((vainParsers.rel_expectWord .PRECISION).2).bind fun _ => pure _)
      before h
  · exact sized _ (.inl here)
  · exact sized _ (.inr here)
  · next noDouble noChar noVarchar =>
    cases noType : simpleType? before.current with
    | some type => exact advance.bind (fun _ => pure _) before h
    | none =>
      refine expecting fun start expected types => .typeName ?_ noType types
      exact identifier_of_dataTypeStart noType start (here ▸ noDouble) (here ▸ noChar)
        (here ▸ noVarchar)

end LooksInVain

/-! ### The grammar -/

/-- Looking for kinds in vain is kept by the grammar. -/
def vain : Congruence :=
  have tokens : vainParsers.rel Eq current current := ⟨moving_current, fun _ h => h⟩
  have names : vainParsers.rel Eq identifier identifier :=
    vainParsers.rel_identifier ⟨moving_advance, .advance⟩
  have alike := vainParsers.rel_alike tokens
  { toParserRelation := vainParsers
    rel_current := alike
    rel_identifier := names
    rel_rowCount := vainParsers.rel_rowCount tokens
    rel_someItems :=
      vainParsers.rel_someItems ⟨moving_canRecover, fun _ h => h⟩
    rel_dataType := ⟨moving.rel_dataType, .dataType⟩
    rel_operand := fun rules parentheses =>
      ⟨moving.rel_operand (fun rule => (rules rule).1) parentheses.1,
        .operand (fun rule => (rules rule).2) parentheses.2
          (ParserRelation.rel_nameOrCall rules alike names).2⟩
    rel_operatorStep := fun rules minLevel left =>
      ⟨moving.rel_operatorStep (fun rule => (rules rule).1) minLevel left,
        .operatorStep (fun rule => (rules rule).2) minLevel left fun level =>
          (ParserRelation.rel_predicateTail rules left level).2⟩ }

/-- Every rule looks for kinds in vain only. -/
theorem apply_vain (lookahead : Bool) (allowance : Nat) (rule : Rule) :
    vain.rel Eq (apply lookahead allowance rule) (apply lookahead allowance rule) := by
  refine ⟨apply_moving lookahead allowance rule, ?_⟩
  induction allowance generalizing rule with
  | zero => exact (LooksInVain.countRule rule).bind fun _ => .refuseDepth
  | succ allowance ih =>
    have body := vain.rel_body (fun rule => ⟨apply_moving lookahead allowance rule, ih rule⟩)
      lookahead rule
    exact (LooksInVain.countRule rule).bind fun _ => .nested rule body.2

/-! ### Statements -/

namespace Session

variable {session : Session}

/-- Whatever follows a query, it is looked for in vain. -/
theorem InVain.finished (h : session.InVain) : session.finished.InVain := by
  have eaten : (sessionAfter (eat .semicolon session)).InVain := by
    rw [eat_run]
    split
    · exact h.advance
    · exact h.noting ‹_›
  unfold Session.finished
  dsimp only
  split
  · exact eaten
  · next more =>
    have noted := eaten.noting more
    exact noted.reporting noted.failure

/-- The diagnostics of a statement list kinds that were looked for in vain. -/
theorem inVain_parse (h : session.InVain) :
    ∀ error ∈ session.parse.errors, error.InVain session.cursor.tokenAt := by
  have known {after : Session} (follows : session.Follows after) (h : after.InVain) :
      ∀ error ∈ after.errors.toList, error.InVain session.cursor.tokenAt :=
    follows.tokenAt ▸ h.errors
  cases short : session.tokenLimit? with
  | some error =>
    obtain ⟨limit, _, passed⟩ := Option.bind_eq_some_iff.mp short
    obtain ⟨_, _, made⟩ := Option.bind_eq_some_iff.mp passed
    cases made
    rw [parse, parseWith, short]
    refine List.forall_mem_singleton.mpr fun expected found same => ?_
    cases same
  | none =>
    have looks := (apply_vain true session.settings.maxDepth .query).2 session h
    have moves := applyRule_moves .query session
    change EndsInVain (applyRule .query session) at looks
    cases run : applyRule .query session with
    | ok tree after =>
      rw [run] at looks moves
      rw [parse_of_ok short run]
      split
      · exact known moves.follows looks
      · exact known (moves.follows.trans (.finished after)) looks.finished
    | error failure after =>
      rw [run] at looks moves
      rw [parse_of_error short run]
      cases failure.fatal with
      | true => exact known moves.follows looks.1
      | false =>
        exact known (moves.follows.trans (.reporting after failure)) (looks.1.reporting looks.2)

/-- In front of the tokens of a text, no kind was looked for yet. -/
theorem InVain.ofTokens {text : String} {tokens : List Token} (cut : tokenize text = .ok tokens)
    (settings : Settings) : (Session.ofTokens tokens settings).InVain :=
  ⟨TokenCursor.genuine_ofTokens cut, fun _ noted => (by cases noted), List.forall_mem_nil _⟩

end Session

/-- A text with `NOT` behind an operand, and no word behind it that it could negate. -/
def negatedNothingSource : String :=
  "SELECT a FROM t WHERE a NOT b"

/-- Does the diagnostic list a kind among the expected ones that it found? -/
def Diagnostic.contradicts (kind : TokenKind) (error : Diagnostic) : Bool :=
  match error.cause with
  | .unexpected expected found => found = kind && expected.contains kind
  | _ => false

/-- Where `NOT` negates nothing, there is a diagnostic that expects it. -/
theorem exists_expected_negation : ∃ tokens, tokenize negatedNothingSource = .ok tokens ∧
    ∃ error ∈ (parseText negatedNothingSource {}).errors, ∃ expected,
      error.cause = .unexpected expected (.keyword .NOT) ∧ .keyword .NOT ∈ expected := by
  have contradicts : (parseText negatedNothingSource {}).errors.any
      (·.contradicts (.keyword .NOT)) = true := by decide +kernel
  obtain ⟨error, listed, contradicts⟩ := List.any_eq_true.mp contradicts
  unfold Diagnostic.contradicts at contradicts
  split at contradicts
  · next expected found cause =>
    obtain ⟨same, there⟩ := Bool.and_eq_true_iff.mp contradicts
    rw [of_decide_eq_true same] at cause
    cases cut : tokenize negatedNothingSource with
    | error fault =>
      have broken : (parseText negatedNothingSource {}).errors = [.lexical fault] := by
        simp only [parseText, parseText?, cut]
        rfl
      rw [broken, List.mem_singleton] at listed
      rw [listed] at cause
      cases cause
    | ok tokens => exact ⟨tokens, rfl, error, listed, expected, cause, there⟩
  · cases contradicts

end Adql
