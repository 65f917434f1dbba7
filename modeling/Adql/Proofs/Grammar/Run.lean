import Adql.Grammar

/-!
# Runs of parsers

A parser is run by applying it to a session.  Here is what comes of the run of a sequence, in terms
of the runs of its parts, and of the runs of the parsers that limits and recovery go through.
-/

namespace Adql

open Adql.Parser Adql.Grammar

variable {α β : Type}

/-! ### Results -/

/-- The session that a run ends in, whether it fails or not. -/
def sessionAfter : EStateM.Result Failure Session α → Session
  | .ok _ after => after
  | .error _ after => after

/-! ### Sequences -/

/-- A sequence succeeds if its first part does and the rest goes on successfully from there. -/
theorem bind_run_ok {p : Parser α} {f : α → Parser β} {before after : Session} {b : β} :
    (p >>= f) before = .ok b after ↔
      ∃ a session, p before = .ok a session ∧ f a session = .ok b after := by
  change EStateM.bind p f before = .ok b after ↔ _
  unfold EStateM.bind
  cases p before with
  | ok a session =>
    refine ⟨fun h => ⟨a, session, rfl, h⟩, ?_⟩
    rintro ⟨_, _, ⟨⟩, h⟩
    exact h
  | error failure session => simp

/-- A sequence fails if its first part does, or the rest fails behind it. -/
theorem bind_run_error {p : Parser α} {f : α → Parser β} {before after : Session}
    {failure : Failure} :
    (p >>= f) before = .error failure after ↔
      p before = .error failure after ∨
        ∃ a session, p before = .ok a session ∧ f a session = .error failure after := by
  change EStateM.bind p f before = .error failure after ↔ _
  unfold EStateM.bind
  cases p before with
  | ok a session =>
    refine ⟨fun h => .inr ⟨a, session, rfl, h⟩, ?_⟩
    rintro (⟨⟨⟩⟩ | ⟨_, _, ⟨⟩, h⟩)
    exact h
  | error failure session => simp

/-! ### Alternatives -/

namespace Session

/-- The session with one more alternative being tried. -/
def trying (session : Session) : Session :=
  { session with speculation := session.speculation + 1 }

/-- The session with one alternative less being tried. -/
def settled (session : Session) : Session :=
  { session with speculation := session.speculation - 1 }

end Session

variable {p : Parser α} {before after : Session} {value : α} {failure : Failure}

/-- What is tried successfully succeeds. -/
theorem speculate_ok (h : p before.trying = .ok value after) :
    speculate p before = .ok value after.settled := by
  change (match p before.trying with | .ok value after => _ | .error _ after => _) = _
  rw [h]
  rfl

/-- What is tried in vain fails. -/
theorem speculate_error (h : p before.trying = .error failure after) :
    speculate p before = .error failure after.settled := by
  change (match p before.trying with | .ok _ after => _ | .error failure after => _) = _
  rw [h]
  rfl

/-- An alternative that is tried successfully drops the notes ahead. -/
theorem alternative_ok (h : p before.trying = .ok value after) :
    alternative p before = .ok value (dropNotesAhead after.settled) := by
  change EStateM.bind (speculate p) _ before = _
  unfold EStateM.bind
  rw [speculate_ok h]
  rfl

/-- An alternative that is tried in vain fails. -/
theorem alternative_error (h : p before.trying = .error failure after) :
    alternative p before = .error failure after.settled := by
  change EStateM.bind (speculate p) _ before = _
  unfold EStateM.bind
  rw [speculate_error h]

/-! ### Limits and recovery -/

/-- The notes report a failure that is not for good. -/
@[simp] theorem Session.failure_fatal (session : Session) : session.failure.fatal = false := by
  unfold Session.failure
  cases session.furthest <;> rfl

/-- A failure is reported and survived, unless it is fatal, or here is no place to recover, or there
are enough diagnostics now. -/
theorem recoverFrom_run (failure : Failure) (sync : List TokenKind) (session : Session) :
    recoverFrom failure sync session =
      if failure.fatal || !session.canRecover then .error failure session
      else
        let reported := session.reporting failure
        if reported.halted then .error reported.fatality reported
        else .ok () { reported with
          cursor := reported.cursor.resynchronized sync failure.position } := by
  change (if failure.fatal || !session.canRecover then _ else _ : Parser Unit) session = _
  by_cases passed : (failure.fatal || !session.canRecover) = true
  · simp only [if_pos passed]
    rfl
  · simp only [if_neg passed]
    change (if (session.reporting failure).halted then _ else _ : Parser Unit) _ = _
    by_cases halted : (session.reporting failure).halted = true
    · simp only [if_pos halted]
      rfl
    · simp only [if_neg halted]
      rfl

/-- The session with one more application of a rule. -/
def Session.counted (session : Session) : Session :=
  { session with invocations := session.invocations + 1 }

/-- An application of a rule is counted, unless the parse was ended or the budget runs out. -/
theorem countInvocation_run (session : Session) :
    countInvocation session =
      if session.halted then .error session.fatality session
      else
        match overBudget session.counted with
        | some limit =>
          .error (session.counted.haltedBy (.budgetExhausted limit)).fatality
            (session.counted.haltedBy (.budgetExhausted limit))
        | none => .ok () session.counted := by
  change (if session.halted then _ else _ : Parser Unit) session = _
  by_cases halted : session.halted = true
  · simp only [if_pos halted]
    rfl
  · simp only [if_neg halted]
    change (match overBudget session.counted with
      | some limit => _ | none => _ : Parser Unit) _ = _
    cases overBudget session.counted <;> rfl

/-- A rule that nests too deep ends the parse. -/
theorem refuseDepth_run {α : Type} (session : Session) :
    (refuseDepth : Parser α) session =
      let ended :=
        if session.halted then session else session.haltedBy (.tooDeep session.settings.maxDepth)
      .error ended.fatality ended :=
  rfl

/-! ### Tokens -/

/-- A test of the current token notes what it looked for in vain. -/
theorem check_run (kind : TokenKind) (session : Session) :
    check kind session =
      if session.current.kind = kind then .ok true session
      else .ok false (session.noting kind) := by
  change (if session.current.kind = kind then _ else _ : Parser Bool) session = _
  by_cases found : session.current.kind = kind
  · simp only [if_pos found]
    rfl
  · simp only [if_neg found]
    rfl

/-- A token that is eaten is left behind; one that is not there is noted. -/
theorem eat_run (kind : TokenKind) (session : Session) :
    eat kind session =
      if session.current.kind = kind then
        .ok true { session with cursor := session.cursor.advance }
      else .ok false (session.noting kind) := by
  change EStateM.bind (check kind) _ session = _
  unfold EStateM.bind
  rw [check_run]
  by_cases found : session.current.kind = kind
  · simp only [if_pos found]
    rfl
  · simp only [if_neg found]
    rfl

/-- In front of a token that is no end marker, there is a token less to come behind it. -/
theorem remaining_advance_lt {session : Session} (final : session.cursor.final.kind = .eof)
    (h : session.current.kind ≠ .eof) :
    session.cursor.advance.remaining < session.cursor.remaining := by
  have inside : session.cursor.position < session.cursor.tokens.size := by
    rcases Nat.lt_or_ge session.cursor.position session.cursor.tokens.size with inside | beyond
    · exact inside
    · rw [Session.current, TokenCursor.current, TokenCursor.tokenAt,
        Array.getElem?_eq_none beyond] at h
      exact absurd final h
  rw [TokenCursor.remaining_advance]
  unfold TokenCursor.remaining
  omega

/-! ### Sessions under other settings -/

namespace Session

/-- The session under other settings. -/
def under (session : Session) (settings : Settings) : Session :=
  { session with settings := settings }

/-- What is noted does not depend on the settings. -/
theorem noting_under (session : Session) (settings : Settings) (kind : TokenKind) :
    (session.under settings).noting kind = (session.noting kind).under settings := by
  obtain ⟨cursor, _, furthest?⟩ := session
  cases furthest? with
  | none => rfl
  | some furthest =>
    simp only [noting, under]
    by_cases behind : cursor.position < furthest.position
    · simp only [behind, ↓reduceIte]
    · by_cases there : cursor.position = furthest.position
      · simp only [there, Nat.lt_irrefl, ↓reduceIte]
      · simp only [behind, there, ↓reduceIte]

/-- The same holds for several kinds. -/
theorem foldl_noting_under (kinds : List TokenKind) (session : Session) (settings : Settings) :
    kinds.foldl noting (session.under settings) =
      (kinds.foldl noting session).under settings := by
  induction kinds generalizing session with
  | nil => rfl
  | cons kind kinds ih => rw [List.foldl_cons, noting_under, ih, List.foldl_cons]

/-- A note does not move the cursor. -/
theorem cursor_noting (session : Session) (kind : TokenKind) :
    (session.noting kind).cursor = session.cursor := by
  unfold Session.noting
  cases session.furthest with
  | none => rfl
  | some furthest =>
    dsimp only
    split
    · rfl
    · split <;> rfl

/-- Several notes do not move the cursor. -/
theorem cursor_foldl_noting (kinds : List TokenKind) (session : Session) :
    (kinds.foldl noting session).cursor = session.cursor := by
  induction kinds generalizing session with
  | nil => rfl
  | cons kind kinds ih => rw [List.foldl_cons, ih, cursor_noting]

/-- Noting a kind does not end a parse. -/
theorem halted_noting (session : Session) (kind : TokenKind) :
    (session.noting kind).halted = session.halted := by
  unfold Session.noting
  cases session.furthest with
  | none => rfl
  | some furthest =>
    dsimp only
    split
    · rfl
    · split <;> rfl

/-- Noting several kinds does not end a parse. -/
theorem halted_foldl_noting (kinds : List TokenKind) (session : Session) :
    (kinds.foldl noting session).halted = session.halted := by
  induction kinds generalizing session with
  | nil => rfl
  | cons kind kinds ih => rw [List.foldl_cons, ih, halted_noting]

/-- The notes that are dropped do not depend on the settings. -/
theorem dropNotesAhead_under (session : Session) (settings : Settings) :
    dropNotesAhead (session.under settings) = (dropNotesAhead session).under settings := by
  obtain ⟨cursor, _, furthest?⟩ := session
  cases furthest? with
  | none => rfl
  | some furthest =>
    simp only [Parser.dropNotesAhead, under]
    by_cases ahead : cursor.position < furthest.position
    · simp only [ahead, ↓reduceIte]
    · simp only [ahead, ↓reduceIte]

/-- Dropping notes does not move the cursor. -/
theorem cursor_dropNotesAhead (session : Session) :
    (dropNotesAhead session).cursor = session.cursor := by
  unfold dropNotesAhead
  cases session.furthest with
  | none => rfl
  | some furthest =>
    dsimp only
    split <;> rfl

/-- Dropping notes does not end a parse. -/
theorem halted_dropNotesAhead (session : Session) :
    (dropNotesAhead session).halted = session.halted := by
  unfold dropNotesAhead
  cases session.furthest with
  | none => rfl
  | some furthest =>
    dsimp only
    split <;> rfl

/-- What a rule closes does not depend on the settings. -/
theorem outsideFailed_under (rule : Rule) (start : Nat) (session : Session) (settings : Settings) :
    outsideFailed rule start (session.under settings) =
      (outsideFailed rule start session).under settings := by
  unfold Parser.outsideFailed
  split <;> rfl

/-- Closing a rule that failed keeps the settings. -/
@[simp] theorem settings_outsideFailed (rule : Rule) (start : Nat) (session : Session) :
    (outsideFailed rule start session).settings = session.settings := by
  unfold Parser.outsideFailed
  split <;> rfl

/-- Closing a rule that failed keeps the diagnostics. -/
@[simp] theorem errors_outsideFailed (rule : Rule) (start : Nat) (session : Session) :
    (outsideFailed rule start session).errors = session.errors := by
  unfold Parser.outsideFailed
  split <;> rfl

/-- Closing a rule that failed does not end the parse, nor resume it. -/
@[simp] theorem halted_outsideFailed (rule : Rule) (start : Nat) (session : Session) :
    (outsideFailed rule start session).halted = session.halted := by
  unfold Parser.outsideFailed
  split <;> rfl

/-- The diagnostic that a failure becomes. -/
def diagnosis (session : Session) (failure : Failure) : Diagnostic :=
  .unexpected (session.cursor.tokenAt failure.position) failure.expected failure.rules.reverse

/-- Closing a rule that failed does not change what its failure is reported as. -/
@[simp] theorem diagnosis_outsideFailed (rule : Rule) (start : Nat) (session : Session)
    (failure : Failure) :
    (outsideFailed rule start session).diagnosis failure = session.diagnosis failure := by
  unfold Parser.outsideFailed
  split <;> rfl

/-- A report adds the diagnostic of the failure. -/
theorem errors_reporting (session : Session) (failure : Failure) :
    (session.reporting failure).errors.toList =
      session.errors.toList ++ [session.diagnosis failure] := by
  simp [reporting, diagnosis]

end Session

/-! ### Statements -/

namespace Session

/-- The session behind the end of a statement: anything but a semicolon is reported. -/
def finished (session : Session) : Session :=
  let behind := sessionAfter (eat .semicolon session)
  if behind.current.kind = .eof then behind
  else (behind.noting .eof).reporting (behind.noting .eof).failure

/-- The end of a statement is read without failure. -/
theorem finish_run (session : Session) : finish session = .ok () session.finished := by
  have read : finish session =
      (do if !(← check .eof) then modify fun session => session.reporting session.failure : Parser Unit)
        (sessionAfter (eat .semicolon session)) := by
    change EStateM.bind (eat .semicolon) _ session = _
    unfold EStateM.bind
    rw [eat_run]
    by_cases found : session.current.kind = .semicolon
    · simp only [found, ↓reduceIte]
      rfl
    · simp only [found, ↓reduceIte]
      rfl
  rw [read]
  unfold finished
  generalize sessionAfter (eat .semicolon session) = behind
  change EStateM.bind (check .eof) _ behind = _
  unfold EStateM.bind
  rw [check_run]
  by_cases ends : behind.current.kind = .eof
  · simp only [ends, ↓reduceIte]
    rfl
  · simp only [ends, ↓reduceIte]
    rfl

variable {session after : Session} {tree : Query} {failure : Failure}

/-- Where the number of tokens is not limited, there are never too many. -/
theorem tokenLimit?_eq_none (unlimited : session.settings.maxTokens = none) :
    session.tokenLimit? = none := by
  rw [tokenLimit?, unlimited]
  rfl

/-- What a query leaves behind is checked for the end of the statement, unless a limit ended the
parse. -/
theorem parse_of_ok (short : session.tokenLimit? = none)
    (h : Grammar.applyRule .query session = .ok tree after) :
    session.parse =
      if after.halted then ⟨none, after.errors.toList⟩
      else ⟨some tree, after.finished.errors.toList⟩ := by
  rw [parse, parseWith, short]
  dsimp only
  rw [parseStatement, h]
  dsimp only
  cases after.halted with
  | true => rfl
  | false =>
    have read : (do finish; pure (some tree) : Parser (Option Query)) after =
        .ok (some tree) after.finished := bind_run_ok.mpr ⟨(), _, finish_run after, rfl⟩
    rw [if_neg Bool.false_ne_true, read]
    rfl

/-- The failure of a query is reported, unless a limit ended the parse. -/
theorem parse_of_error (short : session.tokenLimit? = none)
    (h : Grammar.applyRule .query session = .error failure after) :
    session.parse =
      ⟨none, (if failure.fatal then after else after.reporting failure).errors.toList⟩ := by
  rw [parse, parseWith, short]
  dsimp only
  rw [parseStatement, h]

end Session

end Adql
