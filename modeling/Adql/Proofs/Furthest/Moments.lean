import Adql.Proofs.Grammar.Resynchronization
import Adql.Proofs.Grammar.Progress

/-!
# Moments of a run

A run shows only the session that it ends in, and not how its notes came about.  `RunsThrough` follows
a run through the moments in between: each of them is a session, with what happened to the notes just
then.  There is one case for each primitive parser and for each way to combine parsers.  The notes are
touched in three of them only: when a kind is noted, when an alternative of a choice succeeds, and when
a failure is reported.  All else has to leave them alone (`Session.Quietly`).

Every rule of the grammar, and every parse of a statement behind any calls of rules, runs through some
moments (`statementBehind_traced`).
-/

namespace Adql

open Adql.Parser Adql.Grammar

/-- A kind that was looked for in vain. -/
structure Note where
  /-- The position of the cursor. -/
  position : Nat
  /-- The kind. -/
  kind : TokenKind
  /-- The rules that were active, innermost first. -/
  rules : List RuleName

/-- What happens to the notes at a moment. -/
inductive NoteEvent
  /-- A kind is looked for in vain. -/
  | noted (note : Note)
  /-- A failure is built from the notes. -/
  | failed
  /-- An alternative of a choice has succeeded, and the cursor is at the position. -/
  | chosen (position : Nat)
  /-- A failure is made a diagnostic. -/
  | reported
  /-- A rule returns a failure. -/
  | returned (failure : Failure)
  /-- Nothing happens to the notes. -/
  | other

/-- A moment of a run: what has just happened, and the session then. -/
structure Moment where
  /-- What has just happened. -/
  event : NoteEvent
  /-- The session then. -/
  session : Session

/-- The cursor is at one of the tokens, the last of which is an end marker. -/
structure TokenCursor.Inside (cursor : TokenCursor) : Prop where
  /-- The last token is an end marker. -/
  final : cursor.final.kind = .eof
  /-- The cursor is not behind it. -/
  position : cursor.position ≤ cursor.tokens.size

/-- A session comes after another one without any change of the notes or the tokens. -/
structure Session.Quietly (before after : Session) : Prop where
  /-- The notes are the same. -/
  furthest : after.furthest = before.furthest
  /-- The tokens are the same. -/
  tokens : after.cursor.tokens = before.cursor.tokens
  /-- The end marker is the same. -/
  final : after.cursor.final = before.cursor.final
  /-- The cursor stays at one of the tokens. -/
  inside : before.cursor.Inside → after.cursor.Inside

/-- Runs a parser whether it fails or not. -/
def attempt {α : Type} (parser : Parser α) : Parser Unit := fun before =>
  .ok () (sessionAfter (parser before))

/-- The run of a parser from a session goes through the moments. -/
inductive RunsThrough : {α : Type} → Parser α → Session → List Moment → Prop
  | look {α : Type} {p : Parser α} (same : ∀ session, ∃ a, p session = .ok a session)
      (session : Session) : RunsThrough p session []
  | step {change : Session → Session} (quiet : ∀ session : Session, session.Quietly (change session))
      (session : Session) : RunsThrough (modify change) session [⟨.other, change session⟩]
  | note (kind : TokenKind) (session : Session) :
      RunsThrough (note kind) session
        [⟨.noted ⟨session.cursor.position, kind, session.rules⟩, session.noting kind⟩]
  | fail {α : Type} (session : Session) :
      RunsThrough (fail : Parser α) session [⟨.failed, session⟩]
  | abort {α : Type} (session : Session) : RunsThrough (abort : Parser α) session []
  | choose (session : Session) :
      RunsThrough (modify dropNotesAhead) session
        [⟨.chosen session.cursor.position, dropNotesAhead session⟩]
  | report (session : Session) :
      RunsThrough (modify fun session => session.reporting session.failure) session
        [⟨.failed, session⟩, ⟨.reported, session.reporting session.failure⟩]
  | bind_ok {α β : Type} {p : Parser α} {f : α → Parser β} {session after : Session} {a : α}
      {moments moments' : List Moment} : p session = .ok a after → RunsThrough p session moments →
      RunsThrough (f a) after moments' → RunsThrough (p >>= f) session (moments ++ moments')
  | bind_error {α β : Type} {p : Parser α} {f : α → Parser β} {session after : Session}
      {failure : Failure} {moments : List Moment} : p session = .error failure after →
      RunsThrough p session moments → RunsThrough (p >>= f) session moments
  | nested_ok {α : Type} {p : Parser α} {rule : Rule} {session after : Session} {a : α}
      {moments : List Moment} : p (inside rule session) = .ok a after →
      RunsThrough p (inside rule session) moments →
      RunsThrough (nested rule p) session
        (⟨.other, inside rule session⟩ :: moments ++ [⟨.other, outside rule after⟩])
  | nested_error {α : Type} {p : Parser α} {rule : Rule} {session after : Session}
      {failure : Failure} {moments : List Moment} :
      p (inside rule session) = .error failure after →
      RunsThrough p (inside rule session) moments →
      RunsThrough (nested rule p) session
        (⟨.other, inside rule session⟩ :: moments ++
          [⟨.returned failure, outsideFailed rule session.cursor.position after⟩])
  | speculate {α : Type} {p : Parser α} {session : Session} {moments : List Moment} :
      RunsThrough p session.trying moments →
      RunsThrough (speculate p) session
        (⟨.other, session.trying⟩ :: moments ++ [⟨.other, sessionAfter (speculate p session)⟩])
  | first {α : Type} {p q : Parser α} {session : Session} {moments : List Moment} :
      (∀ failure after, alternative p session = .error failure after → failure.fatal = true) →
      RunsThrough (alternative p) session moments → RunsThrough (firstOf p q) session moments
  | second {α : Type} {p q : Parser α} {session after : Session} {failure : Failure}
      {moments moments' : List Moment} : alternative p session = .error failure after →
      failure.fatal = false → RunsThrough (alternative p) session moments →
      RunsThrough (alternative q) after moments' →
      RunsThrough (firstOf p q) session (moments ++ moments')
  | optional {α : Type} {p : Parser α} {session : Session} {moments : List Moment} :
      RunsThrough (speculate p) session moments → RunsThrough (optional p) session moments
  | keep {α : Type} {p : Parser α} {sync : List TokenKind} {ifFailed : α} {session : Session}
      {moments : List Moment} : (∀ failure after, p session = .error failure after →
        failure.fatal = true ∨ after.canRecover = false) → RunsThrough p session moments →
      RunsThrough (orRecover p sync ifFailed) session moments
  | recover {α : Type} {p : Parser α} {sync : List TokenKind} {ifFailed : α}
      {session after : Session} {failure : Failure} {moments : List Moment} :
      p session = .error failure after → failure.fatal = false → after.canRecover = true →
      RunsThrough p session moments →
      RunsThrough (orRecover p sync ifFailed) session
        (moments ++ [⟨.reported, after.reporting failure⟩,
          ⟨.other, sessionAfter (orRecover p sync ifFailed session)⟩])
  | attempt {α : Type} {p : Parser α} {session : Session} {moments : List Moment} :
      RunsThrough p session moments → RunsThrough (attempt p) session moments
  | statement {query : Parser Query} {session after : Session} {tree : Query}
      {moments moments' : List Moment} : query session = .ok tree after → after.halted = false →
      RunsThrough query session moments → RunsThrough Session.finish after moments' →
      RunsThrough (Session.parseStatement query) session (moments ++ moments')
  | ended {query : Parser Query} {session : Session} {moments : List Moment} :
      (∀ tree after, query session = .ok tree after → after.halted = true) →
      (∀ failure after, query session = .error failure after → failure.fatal = true) →
      RunsThrough query session moments →
      RunsThrough (Session.parseStatement query) session moments
  | refused {query : Parser Query} {session after : Session} {failure : Failure}
      {moments : List Moment} : query session = .error failure after → failure.fatal = false →
      RunsThrough query session moments →
      RunsThrough (Session.parseStatement query) session
        (moments ++ [⟨.reported, after.reporting failure⟩])

/-! ### Changes that leave the notes alone -/

namespace TokenCursor.Inside

variable {cursor : TokenCursor}

/-- The cursor may move on. -/
theorem advance (h : cursor.Inside) : cursor.advance.Inside := by
  unfold TokenCursor.advance
  split
  · next inside => exact ⟨h.final, inside⟩
  · exact h

/-- Resynchronization stops at the end marker at the latest. -/
theorem resynchronized (h : cursor.Inside) (sync : List TokenKind) (failedAt : Nat) :
    (cursor.resynchronized sync failedAt).Inside := by
  have last : (cursor.tokenAt cursor.tokens.size).kind = .eof := by
    rw [tokenAt, Array.getElem?_eq_none (Nat.le_refl _)]
    exact h.final
  have resumes : cursor.CanResumeAt sync failedAt cursor.tokens.size := .inl last
  exact ⟨h.final, (cursor.isLeast_skipped h.final sync failedAt).2 ⟨h.position, resumes⟩⟩

/-- At first the cursor is at the first token. -/
theorem ofTokens (tokens : List Token) : (TokenCursor.ofTokens tokens).Inside :=
  ⟨final_ofTokens tokens, TokenCursor.position_ofTokens tokens ▸ Nat.zero_le _⟩

end TokenCursor.Inside

namespace Session.Quietly

variable {before after : Session}

/-- What leaves the notes and the cursor alone. -/
theorem of_eq (furthest : after.furthest = before.furthest) (cursor : after.cursor = before.cursor) :
    before.Quietly after :=
  ⟨furthest, congrArg _ cursor, congrArg _ cursor, fun inside => cursor ▸ inside⟩

/-- The cursor moves on. -/
theorem advance (session : Session) :
    session.Quietly { session with cursor := session.cursor.advance } where
  furthest := rfl
  tokens := by
    unfold TokenCursor.advance
    split <;> rfl
  final := by
    unfold TokenCursor.advance
    split <;> rfl
  inside := .advance

end Session.Quietly

/-! ### Parsers that run through moments -/

/-- From every session, the parser runs through some moments. -/
def Traced {α : Type} (p : Parser α) : Prop :=
  ∀ session, ∃ moments, RunsThrough p session moments

namespace Traced

variable {α β : Type} {p q : Parser α} {f : α → Parser β}

/-- A parser that looks at the session. -/
theorem look (same : ∀ session, ∃ a, p session = .ok a session) : Traced p :=
  fun session => ⟨[], .look same session⟩

/-- A value is yielded at once. -/
theorem pure (a : α) : Traced (Pure.pure a) :=
  look fun _ => ⟨a, rfl⟩

/-- A change that leaves the notes alone. -/
theorem step {change : Session → Session} (quiet : ∀ session : Session, session.Quietly (change session)) :
    Traced (modify change) :=
  fun session => ⟨_, .step quiet session⟩

/-- A parser behind another one, for the values that this one yields. -/
theorem bind_of_yields (hp : Traced p)
    (hf : ∀ before a after, p before = .ok a after → Traced (f a)) : Traced (p >>= f) := by
  intro session
  obtain ⟨moments, through⟩ := hp session
  cases run : p session with
  | ok a after =>
    obtain ⟨moments', through'⟩ := hf session a after run after
    exact ⟨_, .bind_ok run through through'⟩
  | error failure after => exact ⟨_, .bind_error run through⟩

/-- A parser behind another one. -/
theorem bind (hp : Traced p) (hf : ∀ a, Traced (f a)) : Traced (p >>= f) :=
  hp.bind_of_yields fun _ a _ _ => hf a

/-- A choice by a condition. -/
theorem ite {c : Prop} [Decidable c] (hp : Traced p) (hq : Traced q) :
    Traced (if c then p else q) := by
  split
  · exact hp
  · exact hq

/-- The cursor moves on. -/
theorem advance : Traced advance :=
  bind (look fun _ => ⟨_, rfl⟩) fun _ => (step Session.Quietly.advance).bind fun _ => .pure _

/-- Kinds are noted one by one. -/
theorem noteAll (kinds : List TokenKind) : Traced (noteAll kinds) := by
  induction kinds with
  | nil => exact pure ()
  | cons kind kinds ih =>
    have first : Traced (note kind) := fun session => ⟨_, .note kind session⟩
    exact first.bind fun _ => ih

/-- An alternative. -/
theorem alternative (hp : Traced p) : Traced (alternative p) := by
  have tried : Traced (speculate p) := fun session =>
    have ⟨_, through⟩ := hp session.trying
    ⟨_, .speculate through⟩
  have chosen : Traced (modify dropNotesAhead) := fun session => ⟨_, .choose session⟩
  exact tried.bind fun a => chosen.bind fun _ => .pure a

/-- A choice. -/
theorem firstOf (hp : Traced p) (hq : Traced q) : Traced (firstOf p q) := by
  intro session
  obtain ⟨moments, through⟩ := hp.alternative session
  by_cases refused : ∃ failure after, Parser.alternative p session = .error failure after ∧
      failure.fatal = false
  · obtain ⟨failure, after, run, mild⟩ := refused
    obtain ⟨moments', through'⟩ := hq.alternative after
    exact ⟨_, .second run mild through through'⟩
  · refine ⟨_, .first (fun failure after run => ?_) through⟩
    exact (Bool.not_eq_false _).mp fun mild => refused ⟨failure, after, run, mild⟩

/-- A part that may be missing. -/
theorem optional (hp : Traced p) : Traced (optional p) := fun session =>
  have ⟨_, through⟩ := hp session.trying
  ⟨_, .optional (.speculate through)⟩

/-- A parser whose failures are survived. -/
theorem orRecover (hp : Traced p) (sync : List TokenKind) (ifFailed : α) :
    Traced (orRecover p sync ifFailed) := by
  intro session
  obtain ⟨moments, through⟩ := hp session
  by_cases survived : ∃ failure after, p session = .error failure after ∧
      failure.fatal = false ∧ after.canRecover = true
  · obtain ⟨failure, after, run, mild, recovers⟩ := survived
    exact ⟨_, .recover run mild recovers through⟩
  · refine ⟨_, .keep (fun failure after run => ?_) through⟩
    cases fatal : failure.fatal with
    | true => exact .inl rfl
    | false =>
      exact .inr (Bool.eq_false_iff.mpr fun recovers => survived ⟨failure, after, run, fatal, recovers⟩)

/-- A rule. -/
theorem nested (rule : Rule) (hp : Traced p) : Traced (nested rule p) := by
  intro session
  obtain ⟨moments, through⟩ := hp (inside rule session)
  cases run : p (inside rule session) with
  | ok a after => exact ⟨_, .nested_ok run through⟩
  | error failure after => exact ⟨_, .nested_error run through⟩

/-- The application of a rule is counted. -/
theorem countRule (rule : Rule) : Traced (countRule rule) := by
  have counted : Traced (modify Session.counted) := step fun _ => .of_eq rfl rfl
  have halted (cause : DiagnosticCause) : Traced (modify fun session => session.haltedBy cause) :=
    step fun _ => .of_eq rfl rfl
  have abort : Traced (abort : Parser Unit) := fun session => ⟨_, .abort session⟩
  have get : Traced (get : Parser Session) := look fun session => ⟨session, rfl⟩
  refine ite (get.bind fun _ => ite abort (counted.bind fun _ => get.bind fun session => ?_)) (.pure ())
  cases overBudget session with
  | some limit => exact (halted _).bind fun _ => abort
  | none => exact .pure ()

/-- A refusal to nest deeper. -/
theorem refuseDepth : Traced (refuseDepth : Parser α) := by
  refine bind (step fun session => ?_) fun _ session => ⟨_, .abort session⟩
  split
  · exact .of_eq rfl rfl
  · exact .of_eq rfl rfl

end Traced

/-! ### The grammar -/

/-- Parsers that move forward, the first of which runs through moments. -/
def tracedParsers : NotingRelation where
  rel V p q := moving.rel V p q ∧ Traced p
  rel_pure value := ⟨moving.rel_pure value, .pure _⟩
  rel_bind hp hf := ⟨moving.rel_bind hp.1 fun a b value => (hf a b value).1,
    hp.2.bind_of_yields fun before a _ run =>
      have ⟨b, value⟩ := (hp.1.1 before).value run
      (hf a b value).2⟩
  rel_currentKind := ⟨moving.rel_currentKind, .look fun _ => ⟨_, rfl⟩⟩
  rel_nextKind := ⟨moving.rel_nextKind, .look fun _ => ⟨_, rfl⟩⟩
  rel_kindsAhead := ⟨moving.rel_kindsAhead, .look fun _ => ⟨_, rfl⟩⟩
  rel_remaining := ⟨moving.rel_remaining, .look fun _ => ⟨_, rfl⟩⟩
  rel_precedence := ⟨moving.rel_precedence, .look fun _ => ⟨_, rfl⟩⟩
  rel_advance := ⟨moving.rel_advance, .advance⟩
  rel_noteAll kinds := ⟨movingParsers.rel_noteAll kinds, .noteAll kinds⟩
  rel_fail := ⟨moving.rel_fail, fun session => ⟨_, .fail session⟩⟩
  rel_firstOf hp hq := ⟨moving.rel_firstOf hp.1 hq.1, hp.2.firstOf hq.2⟩
  rel_optional hp := ⟨moving.rel_optional hp.1, hp.2.optional⟩
  rel_orRecover sync ifFailed hp :=
    ⟨moving.rel_orRecover sync ifFailed hp.1, hp.2.orRecover sync ifFailed⟩

/-- Running through moments is kept by the grammar. -/
def traced : Congruence :=
  tracedParsers.toCongruence ⟨moving_current, .look fun _ => ⟨_, rfl⟩⟩ ⟨moving_advance, .advance⟩
    ⟨moving_canRecover, .look fun _ => ⟨_, rfl⟩⟩

/-- Every rule runs through moments. -/
theorem apply_traced (lookahead : Bool) (allowance : Nat) (rule : Rule) :
    Traced (apply lookahead allowance rule) := by
  induction allowance generalizing rule with
  | zero => exact (Traced.countRule rule).bind fun _ => .refuseDepth
  | succ allowance ih =>
    have body := traced.rel_body (fun rule => ⟨apply_moving lookahead allowance rule, ih rule⟩)
      lookahead rule
    exact (Traced.countRule rule).bind fun _ => .nested rule body.2

/-- Every call of a rule runs through moments. -/
theorem applyRule_traced (rule : Rule) : Traced (applyRule rule) := by
  have get : Traced (get : Parser Session) := .look fun session => ⟨session, rfl⟩
  exact get.bind fun session => apply_traced true session.settings.maxDepth rule

/-! ### Statements -/

/-- Calls rules from outside, whether they fail or not, and parses what is left as a statement. -/
def statementBehind (calls : List EntryPoint) : Parser (Option Query) := do
  calls.forM fun call => attempt (applyRule call.rule)
  Session.parseStatement (applyRule .query)

/-- A statement behind calls is parsed from the session that the calls leave. -/
theorem statementBehind_run (calls : List EntryPoint) (session : Session) :
    statementBehind calls session =
      Session.parseStatement (applyRule .query) (session.calling calls) := by
  induction calls generalizing session with
  | nil => rfl
  | cons call calls ih => exact ih (sessionAfter (applyRule call.rule session))

/-- The end of a statement runs through moments. -/
theorem Session.finish_traced : Traced Session.finish := by
  have check (kind : TokenKind) : Traced (check kind) :=
    (Traced.look fun _ => ⟨_, rfl⟩).bind fun _ =>
      .ite (.pure true) ((Traced.noteAll [kind]).bind fun _ => .pure false)
  have eat : Traced (eat .semicolon) :=
    (check .semicolon).bind fun _ => .ite (Traced.advance.bind fun _ => .pure true) (.pure false)
  have report : Traced (modify fun session => session.reporting session.failure) :=
    fun session => ⟨_, .report session⟩
  exact eat.bind fun _ => (check .eof).bind fun _ => .ite report (.pure ())

/-- A statement runs through moments if its query does. -/
theorem Session.parseStatement_traced {query : Parser Query} (h : Traced query) :
    Traced (Session.parseStatement query) := by
  intro session
  obtain ⟨moments, through⟩ := h session
  cases run : query session with
  | ok tree after =>
    cases halted : after.halted with
    | false =>
      obtain ⟨moments', through'⟩ := finish_traced after
      exact ⟨_, .statement run halted through through'⟩
    | true =>
      refine ⟨_, .ended (fun _ _ same => ?_) (fun _ _ same => ?_) through⟩
      · rw [run] at same
        cases same
        exact halted
      · rw [run] at same
        cases same
  | error failure after =>
    cases fatal : failure.fatal with
    | false => exact ⟨_, .refused run fatal through⟩
    | true =>
      refine ⟨_, .ended (fun _ _ same => ?_) (fun _ _ same => ?_) through⟩
      · rw [run] at same
        cases same
      · rw [run] at same
        cases same
        exact fatal

/-- A statement behind calls runs through moments. -/
theorem statementBehind_traced (calls : List EntryPoint) : Traced (statementBehind calls) := by
  have statement := Session.parseStatement_traced (applyRule_traced .query)
  induction calls with
  | nil => exact (Traced.pure ()).bind fun _ => statement
  | cons call calls ih =>
    have first : Traced (attempt (applyRule call.rule)) := fun session =>
      have ⟨_, through⟩ := applyRule_traced call.rule session
      ⟨_, .attempt through⟩
    exact first.bind fun _ => ih

end Adql
