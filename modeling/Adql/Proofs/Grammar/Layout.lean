import Adql.Proofs.Grammar.Progress
import Adql.Proofs.Leaves.Tree

/-!
# Layout does not matter

Two lists of tokens that agree in the kinds, and in the texts of names, numbers and strings, are
parsed side by side.  Their tokens may stand anywhere, and their reserved words and marks may be
spelled in any way.  The two sessions are then the same but for the tokens and the diagnostics; and
the diagnostics are the same `Report`s, put down once for the tokens of each list.  `Session.Relaid`
says this, and every way to combine parsers keeps it.

The result is `parse_ignores_layout`: both parses yield the same tree and the same reports.  A
report names the token that it is about by its index, so the diagnostics are about the same tokens.
-/

namespace Adql

open Adql.Parser Adql.Grammar

/-! ### Tokens -/

/-- Two tokens differ at most in their layout: the kinds are the same, and if they are names,
numbers or strings, so are the texts. -/
structure Token.Relaid (first second : Token) : Prop where
  /-- The kinds are the same. -/
  kind : first.kind = second.kind
  /-- The texts of names, numbers and strings are the same. -/
  lexeme : first.isLeaf = true → first.lexeme = second.lexeme

namespace Token.Relaid

variable {first second : Token}

/-- No rule tells the tokens apart by looking at one of them alone. -/
theorem alike (h : first.Relaid second) : first.Alike second := by
  obtain ⟨kind, lexeme, _, _, _⟩ := first
  obtain ⟨kind', lexeme', _, _, _⟩ := second
  obtain rfl : kind = kind' := h.kind
  by_cases leaf : kind.isLeaf = true
  · obtain rfl : lexeme = lexeme' := h.lexeme leaf
    exact ⟨rfl, rfl, rfl, rfl⟩
  · cases kind with
    | keyword keyword => constructor <;> cases keyword <;> rfl
    | identifier | delimitedIdentifier | integer | real | string => exact absurd rfl leaf
    | _ => exact ⟨rfl, rfl, rfl, rfl⟩

/-- Names, numbers and strings are spelled alike. -/
theorem lexeme_of_kind {kind : TokenKind} (h : first.Relaid second) (found : first.kind = kind)
    (leaf : kind.isLeaf = true) : first.lexeme = second.lexeme :=
  h.lexeme (by rw [Token.isLeaf, found, leaf])

/-- Both tokens stand for the same number of rows, if one of them is an integer. -/
theorem rowCount (h : first.Relaid second) (found : first.kind = .integer) :
    first.rowCount? = second.rowCount? := by
  simp only [rowCount?, integer?, h.lexeme_of_kind found rfl]

/-- Both tokens stand for the same length, if one of them is an integer. -/
theorem length (h : first.Relaid second) (found : first.kind = .integer) :
    first.length? = second.length? := by
  simp only [length?, integer?, h.lexeme_of_kind found rfl]

end Token.Relaid

/-! ### Reports -/

/-- A diagnostic without its place: it is about the token at an index. -/
structure Report where
  /-- The cause. -/
  cause : DiagnosticCause
  /-- The number of tokens in front of the token that it is about. -/
  index : Nat
  /-- The active rules, outermost first. -/
  rules : List RuleName

/-- The diagnostic about the token at the index. -/
def Report.about (cursor : TokenCursor) (report : Report) : Diagnostic :=
  let token := cursor.tokenAt report.index
  ⟨report.cause, token.line, token.column, token.span, token.lexeme, report.rules⟩

/-- Later in a run, the tokens are the same. -/
theorem Session.Follows.tokenAt {before after : Session} (follows : before.Follows after) :
    after.cursor.tokenAt = before.cursor.tokenAt := by
  funext index
  rw [TokenCursor.tokenAt, TokenCursor.tokenAt, follows.tokens, follows.final]

/-- Later in a run, a report is about the same token. -/
theorem Report.about_of_follows (report : Report) {before after : Session}
    (follows : before.Follows after) : report.about after.cursor = report.about before.cursor := by
  rw [about, about, follows.tokenAt]

/-! ### Cursors and sessions -/

/-- Two cursors stand at the same place among tokens that differ at most in their layout. -/
structure TokenCursor.Relaid (first second : TokenCursor) : Prop where
  /-- The tokens correspond. -/
  tokens : List.Forall₂ Token.Relaid first.tokens.toList second.tokens.toList
  /-- The end markers correspond. -/
  final : first.final.Relaid second.final
  /-- The places are the same. -/
  position : first.position = second.position

/-- Moving behind the current token changes no token. -/
theorem TokenCursor.tokenAt_advance (cursor : TokenCursor) :
    cursor.advance.tokenAt = cursor.tokenAt := by
  unfold TokenCursor.advance
  split
  · rfl
  · rfl

namespace TokenCursor.Relaid

variable {first second : TokenCursor}

/-- There are as many tokens. -/
theorem size (h : first.Relaid second) : first.tokens.size = second.tokens.size := by
  have length := h.tokens.length_eq
  rwa [Array.length_toList, Array.length_toList] at length

/-- Tokens at the same index correspond. -/
theorem tokenAt (h : first.Relaid second) (index : Nat) :
    (first.tokenAt index).Relaid (second.tokenAt index) := by
  unfold TokenCursor.tokenAt
  by_cases inside : index < first.tokens.size
  · have inside' : index < second.tokens.size := h.size ▸ inside
    rw [Array.getElem?_eq_getElem inside, Array.getElem?_eq_getElem inside']
    exact h.tokens.get (by simpa using inside) (by simpa using inside')
  · have beyond : second.tokens.size ≤ index := h.size ▸ Nat.le_of_not_lt inside
    rw [Array.getElem?_eq_none (Nat.le_of_not_lt inside), Array.getElem?_eq_none beyond]
    exact h.final

/-- The current tokens correspond. -/
theorem current (h : first.Relaid second) : first.current.Relaid second.current := by
  unfold TokenCursor.current
  rw [h.position]
  exact h.tokenAt second.position

/-- The next tokens are of the same kind. -/
theorem peek (h : first.Relaid second) (ahead : Nat) :
    (first.peek ahead).kind = (second.peek ahead).kind := by
  unfold TokenCursor.peek
  rw [h.position]
  exact (h.tokenAt _).kind

/-- The tokens ahead are of the same kinds. -/
theorem kindsAhead (h : first.Relaid second) : first.kindsAhead = second.kindsAhead := by
  have kinds : List.Forall₂ Eq (first.tokens.toList.map (·.kind))
      (second.tokens.toList.map (·.kind)) := by
    rw [List.forall₂_map_left_iff, List.forall₂_map_right_iff]
    exact h.tokens.imp fun _ _ related => related.kind
  rw [List.forall₂_eq_eq_eq] at kinds
  unfold TokenCursor.kindsAhead
  rw [List.map_drop, List.map_drop, kinds, h.position, h.final.kind]

/-- There are as many tokens ahead. -/
theorem remaining (h : first.Relaid second) : first.remaining = second.remaining := by
  rw [TokenCursor.remaining, TokenCursor.remaining, h.size, h.position]

/-- The cursors may be moved to one place. -/
theorem moveTo (h : first.Relaid second) (position : Nat) :
    (first.moveTo position).Relaid (second.moveTo position) :=
  ⟨h.tokens, h.final, rfl⟩

/-- Both cursors may move behind their current tokens. -/
theorem advance (h : first.Relaid second) : first.advance.Relaid second.advance := by
  unfold TokenCursor.advance
  by_cases inside : first.position < first.tokens.size
  · have inside' : second.position < second.tokens.size := by rwa [← h.position, ← h.size]
    rw [if_pos inside, if_pos inside']
    exact ⟨h.tokens, h.final, congrArg (· + 1) h.position⟩
  · have beyond : ¬second.position < second.tokens.size := by rwa [← h.position, ← h.size]
    rw [if_neg inside, if_neg beyond]
    exact h

/-- Both cursors skip as many tokens. -/
theorem resynchronized (h : first.Relaid second) (sync : List TokenKind) (failedAt : Nat) :
    (first.resynchronized sync failedAt).Relaid (second.resynchronized sync failedAt) := by
  unfold TokenCursor.resynchronized TokenCursor.skipped
  rw [h.kindsAhead, h.position]
  exact h.moveTo _

/-- Cursors at the first tokens of two lists correspond if the lists do. -/
theorem ofTokens {tokens tokens' : List Token} (h : List.Forall₂ Token.Relaid tokens tokens') :
    (TokenCursor.ofTokens tokens).Relaid (TokenCursor.ofTokens tokens') := by
  -- the last token decides whether an end marker is made up, so the lists are read from behind
  have backwards : List.Forall₂ Token.Relaid tokens.reverse tokens'.reverse :=
    List.forall₂_reverse_iff.mpr h
  rw [← tokens.reverse_reverse, ← tokens'.reverse_reverse]
  generalize tokens.reverse = back, tokens'.reverse = back' at backwards
  cases backwards with
  | nil => exact ⟨.nil, ⟨rfl, fun _ => rfl⟩, rfl⟩
  | @cons last last' front front' hlast hfront =>
    have fronts : List.Forall₂ Token.Relaid front.reverse front'.reverse :=
      List.forall₂_reverse_iff.mpr hfront
    have ends : last'.isEnd = last.isEnd := by rw [Token.isEnd, Token.isEnd, hlast.kind]
    rw [List.reverse_cons, List.reverse_cons]
    simp only [TokenCursor.ofTokens, List.getLast?_concat, List.dropLast_concat, ends]
    by_cases final : last.isEnd = true
    · rw [if_pos final, if_pos final]
      exact ⟨by simpa using fronts, hlast, rfl⟩
    · rw [if_neg final, if_neg final]
      refine ⟨?_, ⟨rfl, fun leaf => by cases leaf⟩, rfl⟩
      exact List.rel_append fronts (.cons hlast .nil)

end TokenCursor.Relaid

/-- Two sessions are the same but for the layout of their tokens, and have made the same reports. -/
structure Session.Relaid (first second : Session) : Prop where
  /-- The tokens correspond. -/
  cursor : first.cursor.Relaid second.cursor
  /-- The settings are the same. -/
  settings : first.settings = second.settings
  /-- The notes are the same. -/
  furthest : first.furthest = second.furthest
  /-- The active rules are the same. -/
  rules : first.rules = second.rules
  /-- As many rules have been applied. -/
  invocations : first.invocations = second.invocations
  /-- Rules are nested as deep. -/
  depth : first.depth = second.depth
  /-- As many alternatives are being tried. -/
  speculation : first.speculation = second.speculation
  /-- As many queries are open. -/
  queryDepth : first.queryDepth = second.queryDepth
  /-- Both parses were ended, or none was. -/
  halted : first.halted = second.halted
  /-- The diagnostics are the same reports about the tokens of each session. -/
  errors : ∃ reports : List Report, first.errors.toList = reports.map (Report.about first.cursor) ∧
    second.errors.toList = reports.map (Report.about second.cursor)

namespace Session.Relaid

variable {first second : Session}

/-- There are as many diagnostics. -/
theorem size_errors (h : first.Relaid second) : first.errors.size = second.errors.size := by
  obtain ⟨reports, reported, reported'⟩ := h.errors
  rw [← Array.length_toList, ← Array.length_toList, reported, reported', List.length_map,
    List.length_map]

/-- Whether a failure may be survived is the same. -/
theorem canRecover (h : first.Relaid second) : first.canRecover = second.canRecover := by
  rw [Session.canRecover, Session.canRecover, h.settings, h.speculation, h.queryDepth, h.halted]

/-- The notes report the same failure. -/
theorem failure (h : first.Relaid second) : first.failure = second.failure := by
  unfold Session.failure
  rw [h.furthest, h.cursor.position]

/-- The failure that ends the parse is the same. -/
theorem fatality (h : first.Relaid second) : first.fatality = second.fatality := by
  rw [Session.fatality, Session.fatality, h.cursor.position]

/-- Both cursors may go to another place. -/
theorem withCursor {cursor cursor' : TokenCursor} (h : first.Relaid second)
    (relaid : cursor.Relaid cursor') (same : cursor.tokenAt = first.cursor.tokenAt)
    (same' : cursor'.tokenAt = second.cursor.tokenAt) :
    Session.Relaid { first with cursor := cursor } { second with cursor := cursor' } := by
  obtain ⟨reports, reported, reported'⟩ := h.errors
  refine { h with cursor := relaid, errors := ⟨reports, ?_, ?_⟩ }
  · rw [reported]
    exact List.map_congr_left fun report _ => by rw [Report.about, Report.about, same]
  · rw [reported']
    exact List.map_congr_left fun report _ => by rw [Report.about, Report.about, same']

/-- Both cursors may go back to one place. -/
theorem moveTo (h : first.Relaid second) (position : Nat) :
    Session.Relaid { first with cursor := first.cursor.moveTo position }
      { second with cursor := second.cursor.moveTo position } :=
  h.withCursor (h.cursor.moveTo position) rfl rfl

/-- The same kind may be noted in both sessions. -/
theorem noting (h : first.Relaid second) (kind : TokenKind) :
    (first.noting kind).Relaid (second.noting kind) := by
  unfold Session.noting
  rw [h.furthest, h.rules, h.cursor.position]
  cases second.furthest with
  | none => exact { h with furthest := rfl, rules := rfl }
  | some furthest =>
    dsimp only
    split
    · exact h
    · split <;> exact { h with furthest := rfl, rules := rfl }

/-- The same kinds may be noted in both sessions. -/
theorem foldl_noting (h : first.Relaid second) (kinds : List TokenKind) :
    (kinds.foldl Session.noting first).Relaid (kinds.foldl Session.noting second) := by
  induction kinds generalizing first second with
  | nil => exact h
  | cons kind kinds ih => exact ih (h.noting kind)

/-- The same notes are dropped in both sessions. -/
theorem dropNotesAhead (h : first.Relaid second) :
    (Parser.dropNotesAhead first).Relaid (Parser.dropNotesAhead second) := by
  unfold Parser.dropNotesAhead
  rw [h.furthest, h.cursor.position]
  cases second.furthest with
  | none => exact h
  | some furthest =>
    dsimp only
    split
    · exact { h with furthest := rfl }
    · exact h

/-- One more report may be made in both sessions. -/
theorem push (h : first.Relaid second) (report : Report) (furthest : Option Furthest)
    (halted : Bool) :
    Session.Relaid
      { first with
        errors := first.errors.push (report.about first.cursor)
        furthest := furthest
        halted := halted }
      { second with
        errors := second.errors.push (report.about second.cursor)
        furthest := furthest
        halted := halted } := by
  obtain ⟨reports, reported, reported'⟩ := h.errors
  refine { h with furthest := rfl, halted := rfl, errors := ⟨reports ++ [report], ?_, ?_⟩ }
  · simp [reported]
  · simp [reported']

/-- A limit ends both parses with the same report. -/
theorem haltedBy (h : first.Relaid second) (cause : DiagnosticCause) :
    (first.haltedBy cause).Relaid (second.haltedBy cause) := by
  have pushed := h.push ⟨cause, second.cursor.position, []⟩ second.furthest true
  unfold Session.haltedBy Session.current TokenCursor.current
  rw [h.cursor.position]
  exact { pushed with furthest := h.furthest }

/-- A failure is reported alike. -/
theorem reporting (h : first.Relaid second) (failure : Failure) :
    (first.reporting failure).Relaid (second.reporting failure) := by
  have kind := (h.cursor.tokenAt failure.position).kind
  have halted : (first.reporting failure).halted = (second.reporting failure).halted := by
    simp only [Session.reporting, Array.size_push, h.halted, h.settings, h.size_errors]
  let report : Report := ⟨.unexpected failure.expected (first.cursor.tokenAt failure.position).kind,
    failure.position, failure.rules.reverse⟩
  have second_eq : second.reporting failure =
      { second with
        errors := second.errors.push (report.about second.cursor)
        furthest := none
        halted := (first.reporting failure).halted } := by
    rw [halted]
    simp only [Session.reporting, report, Report.about, Diagnostic.unexpected, kind]
  rw [second_eq]
  exact h.push report none (first.reporting failure).halted

/-- One more application is counted in both sessions. -/
theorem counted (h : first.Relaid second) : first.counted.Relaid second.counted :=
  { h with invocations := congrArg (· + 1) h.invocations }

/-- One more alternative is tried in both sessions. -/
theorem trying (h : first.Relaid second) : first.trying.Relaid second.trying :=
  { h with speculation := congrArg (· + 1) h.speculation }

/-- One alternative less is tried in both sessions. -/
theorem settled (h : first.Relaid second) : first.settled.Relaid second.settled :=
  { h with speculation := congrArg (· - 1) h.speculation }

/-- Both sessions go inside a rule. -/
theorem inside (h : first.Relaid second) (rule : Rule) :
    (Parser.inside rule first).Relaid (Parser.inside rule second) :=
  { h with
    depth := congrArg (· + 1) h.depth
    rules := congrArg (rule.name?.toList ++ ·) h.rules
    queryDepth := by simp only [Parser.inside, h.queryDepth] }

/-- Both sessions come out of a rule. -/
theorem outside (h : first.Relaid second) (rule : Rule) :
    (Parser.outside rule first).Relaid (Parser.outside rule second) :=
  { h with
    depth := congrArg (· - 1) h.depth
    rules := congrArg (List.drop rule.name?.toList.length) h.rules
    queryDepth := by simp only [Parser.outside, h.queryDepth] }

/-- Both sessions come out of a rule that failed. -/
theorem outsideFailed (h : first.Relaid second) (rule : Rule) (start : Nat) :
    (Parser.outsideFailed rule start first).Relaid (Parser.outsideFailed rule start second) := by
  unfold Parser.outsideFailed
  split
  · exact (h.moveTo start).outside rule
  · exact h.outside rule

end Session.Relaid

/-! ### Runs -/

/-- Two runs succeed with related values or fail alike, and leave sessions that are the same but for
the layout. -/
inductive RunsRelaid {α β : Type} (V : α → β → Prop) :
    EStateM.Result Failure Session α → EStateM.Result Failure Session β → Prop
  | ok {a b after after'} : V a b → after.Relaid after' → RunsRelaid V (.ok a after) (.ok b after')
  | error {failure after after'} : after.Relaid after' →
      RunsRelaid V (.error failure after) (.error failure after')

namespace RunsRelaid

variable {α β γ δ : Type} {V : α → β → Prop} {W : γ → δ → Prop} {first second : Session}

/-- Sequences run alike if their parts do. -/
theorem bind {p : Parser α} {q : Parser β} {f : α → Parser γ} {g : β → Parser δ}
    (h : RunsRelaid V (p first) (q second))
    (hf : ∀ a b first second, V a b → first.Relaid second →
      RunsRelaid W (f a first) (g b second)) :
    RunsRelaid W ((p >>= f) first) ((q >>= g) second) := by
  change RunsRelaid W (EStateM.bind p f first) (EStateM.bind q g second)
  unfold EStateM.bind
  generalize p first = result, q second = result' at h
  cases h with
  | ok value relaid => exact hf _ _ _ _ value relaid
  | error relaid => exact .error relaid

variable {p q p' q' : Parser α} {r : Parser β}

/-- What is tried runs alike. -/
theorem speculate (h : RunsRelaid V (p first.trying) (r second.trying)) :
    RunsRelaid V (speculate p first) (speculate r second) := by
  cases run : p first.trying with
  | ok a after =>
    rw [run] at h
    rw [speculate_ok run]
    cases run' : r second.trying with
    | ok b after' =>
      rw [run'] at h
      rw [speculate_ok run']
      cases h with
      | ok value relaid => exact .ok value relaid.settled
    | error failure after' => rw [run'] at h; cases h
  | error failure after =>
    rw [run] at h
    rw [speculate_error run]
    cases run' : r second.trying with
    | ok b after' => rw [run'] at h; cases h
    | error failure' after' =>
      rw [run'] at h
      rw [speculate_error run']
      cases h with
      | error relaid => exact .error relaid.settled

/-- Alternatives run alike. -/
theorem alternative (h : RunsRelaid V (p first.trying) (r second.trying)) :
    RunsRelaid V (alternative p first) (alternative r second) :=
  bind h.speculate fun _ _ _ _ value relaid => .ok value relaid.dropNotesAhead

/-- Choices run alike. -/
theorem firstOf (hp : RunsRelaid Eq (p first.trying) (p' second.trying))
    (hq : ∀ first second : Session, first.Relaid second →
      RunsRelaid Eq (q first.trying) (q' second.trying)) :
    RunsRelaid Eq (firstOf p q first) (firstOf p' q' second) := by
  have tried := hp.alternative
  unfold Parser.firstOf
  generalize Parser.alternative p first = result, Parser.alternative p' second = result' at tried
  cases tried with
  | ok value relaid => exact .ok value relaid
  | @error failure after after' relaid =>
    dsimp only
    split
    · exact .error relaid
    · exact (hq after after' relaid).alternative

/-- Optional parts run alike. -/
theorem optional (h : RunsRelaid Eq (p first.trying) (p' second.trying)) :
    RunsRelaid Eq (optional p first) (optional p' second) := by
  have tried := h.speculate
  unfold Parser.optional
  generalize Parser.speculate p first = result, Parser.speculate p' second = result' at tried
  cases tried with
  | ok value relaid => exact .ok (congrArg some value) relaid
  | error relaid =>
    dsimp only
    split
    · exact .error relaid
    · exact .ok rfl relaid

/-- Failures are survived alike. -/
theorem recoverFrom (failure : Failure) (sync : List TokenKind) (relaid : first.Relaid second) :
    RunsRelaid Eq (recoverFrom failure sync first) (recoverFrom failure sync second) := by
  have reported := relaid.reporting failure
  rw [recoverFrom_run, recoverFrom_run, relaid.canRecover]
  split
  · exact .error relaid
  · dsimp only
    rw [reported.halted, reported.fatality]
    split
    · exact .error reported
    · have behind :=
        reported.withCursor (reported.cursor.resynchronized sync failure.position) rfl rfl
      exact .ok rfl { behind with halted := rfl }

/-- Parsers whose failures are survived run alike. -/
theorem orRecover (sync : List TokenKind) (ifFailed : α)
    (h : RunsRelaid Eq (p first) (p' second)) :
    RunsRelaid Eq (orRecover p sync ifFailed first) (orRecover p' sync ifFailed second) := by
  unfold Parser.orRecover
  generalize p first = result, p' second = result' at h
  cases h with
  | ok value relaid => exact .ok value relaid
  | @error failure after after' relaid =>
    exact bind (recoverFrom failure sync relaid) fun _ _ _ _ _ relaid => .ok rfl relaid

/-- Rules run alike if their bodies do. -/
theorem nested (rule : Rule) (position : first.cursor.position = second.cursor.position)
    (h : RunsRelaid V (p (inside rule first)) (r (inside rule second))) :
    RunsRelaid V (nested rule p first) (nested rule r second) := by
  unfold Parser.nested
  generalize p (inside rule first) = result, r (inside rule second) = result' at h
  cases h with
  | ok value relaid => exact .ok value (relaid.outside rule)
  | error relaid =>
    rw [position]
    exact .error (relaid.outsideFailed rule _)

/-- Applications are counted alike. -/
theorem countRule (rule : Rule) (relaid : first.Relaid second) :
    RunsRelaid Eq (countRule rule first) (countRule rule second) := by
  have budget : overBudget first.counted = overBudget second.counted := by
    simp only [overBudget, relaid.counted.settings, relaid.counted.invocations]
  unfold Grammar.countRule
  split
  · rw [countInvocation_run, countInvocation_run, relaid.halted, budget]
    split
    · rw [relaid.fatality]
      exact .error relaid
    · cases overBudget second.counted with
      | some limit =>
        dsimp only
        rw [(relaid.counted.haltedBy _).fatality]
        exact .error (relaid.counted.haltedBy _)
      | none => exact .ok rfl relaid.counted
  · exact .ok rfl relaid

/-- Nesting too deep is refused alike. -/
theorem refuseDepth (relaid : first.Relaid second) :
    RunsRelaid V (refuseDepth first) (refuseDepth second) := by
  rw [refuseDepth_run, refuseDepth_run]
  dsimp only
  rw [relaid.halted, relaid.settings]
  split
  · rw [relaid.fatality]
    exact .error relaid
  · rw [(relaid.haltedBy _).fatality]
    exact .error (relaid.haltedBy _)

end RunsRelaid

/-! ### The grammar -/

/-- Running alike is kept by the ways to combine parsers. -/
def relaidParsers : NotingRelation where
  rel V p q := ∀ first second : Session, first.Relaid second → RunsRelaid V (p first) (q second)
  rel_pure value := fun _ _ relaid => .ok value relaid
  rel_bind hp hf := fun first second relaid =>
    .bind (hp first second relaid) fun a b first second value => hf a b value first second
  rel_currentKind := fun _ _ relaid => .ok relaid.cursor.current.kind relaid
  rel_nextKind := fun _ _ relaid => .ok (relaid.cursor.peek 1) relaid
  rel_kindsAhead := fun _ _ relaid => .ok relaid.cursor.kindsAhead relaid
  rel_remaining := fun _ _ relaid => .ok relaid.cursor.remaining relaid
  rel_precedence := fun _ _ relaid => .ok (congrArg Settings.precedence relaid.settings) relaid
  rel_advance := fun _ _ relaid =>
    .ok trivial (relaid.withCursor relaid.cursor.advance (TokenCursor.tokenAt_advance _)
      (TokenCursor.tokenAt_advance _))
  rel_noteAll kinds := fun _ _ relaid => .ok rfl (relaid.foldl_noting kinds)
  rel_fail := fun first second relaid => by
    change RunsRelaid _ (.error first.failure first) (.error second.failure second)
    rw [relaid.failure]
    exact .error relaid
  rel_firstOf hp hq := fun _ _ relaid =>
    .firstOf (hp _ _ relaid.trying) fun _ _ relaid => hq _ _ relaid.trying
  rel_optional hp := fun _ _ relaid => .optional (hp _ _ relaid.trying)
  rel_orRecover sync ifFailed hp := fun first second relaid =>
    .orRecover sync ifFailed (hp first second relaid)

namespace RunsRelaid

variable {α : Type} {V : α → α → Prop} {p q p' q' : Parser α} {first second : Session}
  {kind : TokenKind}

/-- Behind a test of the current token, both runs know its kind. -/
theorem check_ite (relaid : first.Relaid second)
    (found : first.current.kind = kind → RunsRelaid V (p first) (p' second))
    (missed : relaidParsers.rel V q q') :
    RunsRelaid V ((check kind >>= fun there => if there = true then p else q) first)
      ((check kind >>= fun there => if there = true then p' else q') second) := by
  have same : first.current.kind = second.current.kind := relaid.cursor.current.kind
  change RunsRelaid V (EStateM.bind (check kind) _ first) (EStateM.bind (check kind) _ second)
  unfold EStateM.bind
  rw [check_run, check_run, ← same]
  by_cases here : first.current.kind = kind
  · rw [if_pos here, if_pos here]
    exact found here
  · rw [if_neg here, if_neg here]
    exact missed _ _ (relaid.noting kind)

/-- A look at a token of a known kind yields tokens with the same text. -/
theorem current (relaid : first.Relaid second) (here : first.current.kind = kind) :
    RunsRelaid (fun token token' => token.kind = kind ∧ token.Relaid token')
      (current first) (current second) :=
  .ok ⟨here, relaid.cursor.current⟩ relaid

/-- Moving behind a token of a known kind yields tokens with the same text. -/
theorem advance (relaid : first.Relaid second) (here : first.current.kind = kind) :
    RunsRelaid (fun token token' => token.kind = kind ∧ token.Relaid token')
      (advance first) (advance second) :=
  .ok ⟨here, relaid.cursor.current⟩ (relaid.withCursor relaid.cursor.advance
    (TokenCursor.tokenAt_advance _) (TokenCursor.tokenAt_advance _))

end RunsRelaid

/-- Names are read alike: they have the same text. -/
theorem relaid_identifier : relaidParsers.rel Eq identifier identifier := by
  intro first second relaid
  refine .check_ite relaid (fun here => ?_) fun first second relaid => ?_
  · refine (RunsRelaid.advance relaid here).bind ?_
    rintro token token' after after' ⟨kind, spelled⟩ relaid
    exact .ok (congrArg Identifier.regular (spelled.lexeme_of_kind kind rfl)) relaid
  · refine .check_ite relaid (fun here => ?_) relaidParsers.rel_fail
    refine (RunsRelaid.advance relaid here).bind ?_
    rintro token token' after after' ⟨kind, spelled⟩ relaid
    exact .ok (congrArg (fun text => Identifier.delimited (Text.unquoted '"' text))
      (spelled.lexeme_of_kind kind rfl)) relaid

/-- Numbers of rows are read alike: they have the same digits. -/
theorem relaid_rowCount : relaidParsers.rel Eq rowCount rowCount := by
  intro first second relaid
  refine .check_ite relaid (fun here => ?_) relaidParsers.rel_fail
  refine (RunsRelaid.current relaid here).bind ?_
  rintro token token' after after' ⟨kind, spelled⟩ relaid
  rw [spelled.rowCount kind]
  cases token'.rowCount? with
  | some count =>
    exact relaidParsers.rel_then relaidParsers.rel_advance
      (relaidParsers.rel_value count) _ _ relaid
  | none => exact relaidParsers.rel_fail _ _ relaid

/-- The lengths of types are read alike: they have the same digits. -/
theorem relaid_typeLength : relaidParsers.rel Eq typeLength typeLength := by
  let C := relaidParsers
  refine C.rel_seq (C.rel_eat _) fun _ => C.rel_ite _ ?_ (C.rel_value none)
  intro first second relaid
  refine .check_ite relaid (fun here => ?_) C.rel_fail
  refine (RunsRelaid.current relaid here).bind ?_
  rintro token token' after after' ⟨kind, spelled⟩ relaid
  rw [spelled.length kind]
  cases token'.length? with
  | some length =>
    exact C.rel_then C.rel_advance (C.rel_expectThen _ (C.rel_value _)) _ _ relaid
  | none => exact C.rel_failExpecting _ _ _ relaid

/-- Running alike is kept by the grammar. -/
def relaid : Congruence :=
  relaidParsers.congruence (fun _ _ relaid => .ok relaid.cursor.current.alike relaid)
    relaid_identifier relaid_rowCount relaid_typeLength
    (relaidParsers.rel_someItems fun _ _ relaid => .ok relaid.canRecover relaid)

/-- Every rule runs alike. -/
theorem apply_relaid (lookahead : Bool) (allowance : Nat) (rule : Rule) :
    relaid.rel Eq (apply lookahead allowance rule) (apply lookahead allowance rule) := by
  induction allowance generalizing rule with
  | zero =>
    intro first second related
    exact (RunsRelaid.countRule rule related).bind fun _ _ _ _ _ related => .refuseDepth related
  | succ allowance ih =>
    intro first second related
    refine (RunsRelaid.countRule rule related).bind fun _ _ first second _ related => ?_
    exact .nested rule related.cursor.position
      (relaid.rel_body ih lookahead rule _ _ (related.inside rule))

/-! ### Statements -/

namespace Session.Relaid

variable {first second : Session}

/-- The end of a statement is read alike. -/
theorem finished (h : first.Relaid second) : first.finished.Relaid second.finished := by
  have eaten : (sessionAfter (eat .semicolon first)).Relaid
      (sessionAfter (eat .semicolon second)) := by
    have runs := relaidParsers.rel_eat .semicolon first second h
    generalize eat .semicolon first = result, eat .semicolon second = result' at runs ⊢
    cases runs with
    | ok _ relaid => exact relaid
    | error relaid => exact relaid
  unfold Session.finished
  generalize sessionAfter (eat .semicolon first) = first,
    sessionAfter (eat .semicolon second) = second at eaten ⊢
  have same : first.current.kind = second.current.kind := eaten.cursor.current.kind
  have noted := eaten.noting .eof
  dsimp only
  rw [same, noted.failure]
  split
  · exact eaten
  · exact noted.reporting _

/-- Too many tokens are reported alike. -/
theorem tokenLimit (h : first.Relaid second) :
    (first.tokenLimit? = none ∧ second.tokenLimit? = none) ∨
      ∃ report : Report, first.tokenLimit? = some (report.about first.cursor) ∧
        second.tokenLimit? = some (report.about second.cursor) := by
  unfold Session.tokenLimit?
  rw [h.settings, TokenCursor.size, TokenCursor.size, h.cursor.size]
  cases second.settings.maxTokens with
  | none => exact .inl ⟨rfl, rfl⟩
  | some limit =>
    by_cases more : limit < second.cursor.tokens.size + 1 - 1
    · refine .inr ⟨⟨.tooManyTokens (second.cursor.tokens.size + 1 - 1) limit, limit, []⟩, ?_, ?_⟩
      · simp only [Option.bind_eq_bind, Option.bind_some, guard, if_pos more]
        rfl
      · simp only [Option.bind_eq_bind, Option.bind_some, guard, if_pos more]
        rfl
    · refine .inl ⟨?_, ?_⟩
      · simp only [Option.bind_eq_bind, Option.bind_some, guard, if_neg more]
        rfl
      · simp only [Option.bind_eq_bind, Option.bind_some, guard, if_neg more]
        rfl

/-- Later in both runs the diagnostics are the same reports about the tokens in front. -/
theorem reports_of_follows {after after' : Session} (h : after.Relaid after')
    (follows : first.Follows after)
    (follows' : second.Follows after') : ∃ reports : List Report,
      after.errors.toList = reports.map (Report.about first.cursor) ∧
      after'.errors.toList = reports.map (Report.about second.cursor) := by
  obtain ⟨reports, reported, reported'⟩ := h.errors
  refine ⟨reports, ?_, ?_⟩
  · rw [reported]
    exact List.map_congr_left fun report _ => report.about_of_follows follows
  · rw [reported']
    exact List.map_congr_left fun report _ => report.about_of_follows follows'

/-- Statements are read alike. -/
theorem parse (h : first.Relaid second) : ∃ (tree? : Option Query) (reports : List Report),
    first.parse = ⟨tree?, reports.map (Report.about first.cursor)⟩ ∧
      second.parse = ⟨tree?, reports.map (Report.about second.cursor)⟩ := by
  rcases h.tokenLimit with ⟨short, short'⟩ | ⟨report, long, long'⟩
  · have runs : RunsRelaid Eq (applyRule .query first) (applyRule .query second) := by
      change RunsRelaid Eq (apply true _ .query first) (apply true _ .query second)
      rw [h.settings]
      exact apply_relaid true _ .query first second h
    have moves := (applyRule_moves .query first).follows
    have moves' := (applyRule_moves .query second).follows
    generalize run : applyRule .query first = result, run' : applyRule .query second = result'
      at runs moves moves'
    cases runs with
    | @ok tree _ after after' same relaid =>
      subst same
      rw [parse_of_ok short run, parse_of_ok short' run', relaid.halted]
      split
      · obtain ⟨reports, reported, reported'⟩ := relaid.reports_of_follows moves moves'
        exact ⟨none, reports, by rw [reported], by rw [reported']⟩
      · obtain ⟨reports, reported, reported'⟩ := relaid.finished.reports_of_follows
          (moves.trans (.finished after)) (moves'.trans (.finished after'))
        exact ⟨some tree, reports, by rw [reported], by rw [reported']⟩
    | @error failure after after' relaid =>
      rw [parse_of_error short run, parse_of_error short' run']
      split
      · obtain ⟨reports, reported, reported'⟩ := relaid.reports_of_follows moves moves'
        exact ⟨none, reports, by rw [reported], by rw [reported']⟩
      · obtain ⟨reports, reported, reported'⟩ := (relaid.reporting failure).reports_of_follows
          (moves.trans (.reporting after failure)) (moves'.trans (.reporting after' failure))
        exact ⟨none, reports, by rw [reported], by rw [reported']⟩
  · refine ⟨none, [report], ?_, ?_⟩
    · rw [Session.parse, parseWith, long]
      rfl
    · rw [Session.parse, parseWith, long']
      rfl

end Session.Relaid

/-- The tokens of `SELECT * FROM` on one line. -/
def unfinishedTokens : List Token :=
  [⟨.keyword .SELECT, "SELECT", ⟨0, 6⟩, 1, 1⟩, ⟨.star, "*", ⟨7, 8⟩, 1, 8⟩,
   ⟨.keyword .FROM, "FROM", ⟨9, 13⟩, 1, 10⟩]

/-- The same in small letters, one word on a line. -/
def unfinishedTokensBelow : List Token :=
  [⟨.keyword .SELECT, "select", ⟨0, 6⟩, 1, 1⟩, ⟨.star, "*", ⟨7, 8⟩, 2, 1⟩,
   ⟨.keyword .FROM, "from", ⟨9, 13⟩, 3, 1⟩]

end Adql
