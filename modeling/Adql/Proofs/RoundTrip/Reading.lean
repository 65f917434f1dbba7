import Adql.Proofs.RoundTrip.Facing

/-!
# Reading words

`Reads parser words value rest` says that a parser succeeds in front of the words, whatever the
session is like otherwise: it yields the value and leaves the rest.  `Fails parser words` says that
it fails and leaves the words, so that an alternative may be tried.  There is one lemma for each
primitive parser and for each way to combine parsers.
-/

namespace Adql

open Adql.Parser Adql.Grammar

variable {α β σ : Type}

/-- In front of the words, the parser yields the value and leaves the rest. -/
def Reads (parser : Parser α) (words : List Word) (value : α) (rest : List Word)
    (table : PrecedenceTable := .adql) : Prop :=
  ∀ (good : Word → Prop) (session : Session), session.Faces words table good →
    ∃ after, parser session = .ok value after ∧ after.Faces rest table good

/-- In front of the words, the parser fails, though not for good, and leaves the words. -/
def Fails (parser : Parser α) (words : List Word) : Prop :=
  ∀ (good : Word → Prop) (session : Session), session.Faces words .adql good →
    ∃ failure after, parser session = .error failure after ∧ failure.fatal = false ∧
      after.Faces words .adql good

/-- In front of the words, the parser fails, though not for good, wherever it gets. -/
def Stalls (parser : Parser α) (words : List Word) : Prop :=
  ∀ (good : Word → Prop) (session : Session), session.Faces words .adql good →
    ∃ failure after rest, parser session = .error failure after ∧ failure.fatal = false ∧
      after.Faces rest .adql good

namespace Reads

variable {p q : Parser α} {f : α → Parser β} {words middle rest : List Word} {a : α} {b : β}
  {word : Word} {kind : TokenKind} {keyword : Keyword} {table : PrecedenceTable}

/-! ### Sequences -/

/-- A value is yielded at once. -/
theorem pure (a : α) (words : List Word) : Reads (pure a) words a words table :=
  fun _ session faces => ⟨session, rfl, faces⟩

/-- A sequence reads what its parts read. -/
theorem bind (hp : Reads p words a middle table) (hf : Reads (f a) middle b rest table) :
    Reads (p >>= f) words b rest table := by
  intro good session faces
  obtain ⟨between, hrun, faces⟩ := hp good session faces
  obtain ⟨after, hrun', faces⟩ := hf good between faces
  exact ⟨after, bind_run_ok.mpr ⟨a, between, hrun, hrun'⟩, faces⟩

/-- The value of a parser may be mapped. -/
theorem map (f : α → β) (hp : Reads p words a rest table) :
    Reads (f <$> p) words (f a) rest table := by
  rw [map_eq_pure_bind]
  exact hp.bind (.pure _ _)

/-! ### Tokens -/

/-- The kind of the current token is the kind of the first word. -/
theorem currentKind (words : List Word) : Reads currentKind words (firstKind words) words table :=
  fun _ session faces => ⟨session, congrArg (EStateM.Result.ok · session) faces.current_kind, faces⟩

/-- The kind of the next token is the kind of the second word. -/
theorem nextKind (words : List Word) : Reads nextKind words (secondKind words) words table :=
  fun _ session faces => ⟨session, congrArg (EStateM.Result.ok · session) faces.next_kind, faces⟩

/-- The kinds ahead are the kinds of the words. -/
theorem kindsAhead (words : List Word) :
    Reads kindsAhead words (words.map (·.kind) ++ [.eof]) words table :=
  fun _ session faces => ⟨session, congrArg (EStateM.Result.ok · session) faces.kindsAhead, faces⟩

/-- There are as many tokens left as words. -/
theorem remaining (words : List Word) : Reads remaining words words.length words table :=
  fun _ session faces => ⟨session, congrArg (EStateM.Result.ok · session) faces.remaining, faces⟩

/-- The precedence is the one of the table. -/
theorem precedence (words : List Word) : Reads precedence words table words table :=
  fun _ session faces => ⟨session, congrArg (EStateM.Result.ok · session) faces.precedence, faces⟩

/-- There is no recovery. -/
theorem canRecover (words : List Word) : Reads canRecover words false words table := by
  intro good session faces
  refine ⟨session, congrArg (EStateM.Result.ok · session) ?_, faces⟩
  simp [Session.canRecover, faces.strict]

/-- What follows a look at the current token reads on if it does so for every token of the first word,
or of the end marker. -/
theorem current_bind {f : Token → Parser β}
    (h : ∀ token, token.word = words.headD endWord → Reads (f token) words b rest table) :
    Reads (current >>= f) words b rest table :=
  fun _ session faces => h session.current faces.current_word _ session faces

/-- What follows a look at the current token reads on if it does so for every token of the kind of
the first word. -/
theorem current_kind_bind {f : Token → Parser β}
    (h : ∀ token, token.kind = firstKind words → Reads (f token) words b rest table) :
    Reads (current >>= f) words b rest table :=
  fun _ session faces => h session.current faces.current_kind _ session faces

/-- What follows a token reads on if it does so for every token of the word. -/
theorem advance_bind {f : Token → Parser β}
    (h : ∀ token, token.word = word → Reads (f token) words b rest table) :
    Reads (advance >>= f) (word :: words) b rest table :=
  fun _ session faces => h session.current faces.current_word _ _ faces.advance

/-- Notes do not keep a parser from reading on. -/
theorem noteAll (kinds : List TokenKind) (words : List Word) :
    Reads (noteAll kinds) words () words table :=
  fun _ _ faces => ⟨_, rfl, faces.foldl_noting kinds⟩

/-- A look at a kind that is there. -/
theorem check_true (h : firstKind words = kind) : Reads (check kind) words true words table := by
  intro good session faces
  refine ⟨session, ?_, faces⟩
  rw [check_run, faces.current_kind, if_pos h]

/-- A look at a kind that is not there. -/
theorem check_false (h : firstKind words ≠ kind) : Reads (check kind) words false words table := by
  intro good session faces
  refine ⟨session.noting kind, ?_, faces.noting kind⟩
  rw [check_run, faces.current_kind, if_neg h]

/-- A word that is there is eaten. -/
theorem eat_true (h : word.kind = kind) : Reads (eat kind) (word :: words) true words table := by
  intro good session faces
  refine ⟨_, ?_, faces.advance⟩
  rw [eat_run, faces.current_kind, firstKind_cons, if_pos h]

/-- A word that is not there is not eaten. -/
theorem eat_false (h : firstKind words ≠ kind) : Reads (eat kind) words false words table := by
  intro good session faces
  refine ⟨session.noting kind, ?_, faces.noting kind⟩
  rw [eat_run, faces.current_kind, if_neg h]

/-- A parser reads on behind a word that has to be there. -/
theorem expect_bind {q : Parser β} (h : word.kind = kind) (hq : Reads q words b rest table) :
    Reads (expect kind >>= fun _ => q) (word :: words) b rest table := by
  unfold expect
  rw [bind_assoc]
  have there : firstKind (word :: words) = kind := h
  refine (check_true there).bind ?_
  exact advance_bind fun _ _ => hq

/-- A reserved word that has to be there is read. -/
theorem expectWord (keyword : Keyword) (words : List Word) :
    Reads (expectWord keyword) (keyword.word :: words) () words table :=
  expect_bind rfl (.pure () words)

/-- What stands behind a word is read. -/
theorem afterWord_some (default : α) (h : Reads p words a rest table) :
    Reads (afterWord keyword default p) (keyword.word :: words) a rest table :=
  (eat_true rfl).bind h

/-- Without the word, there is the default. -/
theorem afterWord_none {default : α} (h : firstKind words ≠ .keyword keyword) :
    Reads (afterWord keyword default p) words default words table :=
  (eat_false h).bind (.pure default words)

/-! ### Alternatives -/

/-- What is tried reads the same. -/
theorem speculate (h : Reads p words a rest table) : Reads (speculate p) words a rest table := by
  intro good session faces
  obtain ⟨after, hrun, hafter⟩ := h good session.trying (faces.of_eq rfl rfl rfl rfl)
  exact ⟨after.settled, speculate_ok hrun, hafter.of_eq rfl rfl rfl rfl⟩

/-- An alternative reads the same. -/
theorem alternative (h : Reads p words a rest table) :
    Reads (alternative p) words a rest table := by
  intro good session faces
  obtain ⟨after, hrun, hafter⟩ := h good session.trying (faces.of_eq rfl rfl rfl rfl)
  have settled : after.settled.Faces rest table good := hafter.of_eq rfl rfl rfl rfl
  exact ⟨_, alternative_ok hrun, settled.dropNotesAhead⟩

/-- The first alternative is taken if it succeeds. -/
theorem firstOf_left (h : Reads p words a rest table) : Reads (firstOf p q) words a rest table := by
  intro good session faces
  obtain ⟨after, hrun, hafter⟩ := h.alternative good session faces
  refine ⟨after, ?_, hafter⟩
  rw [firstOf, hrun]

/-- The second alternative is taken if the first one fails. -/
theorem firstOf_right (hp : Fails p words) (hq : Reads q words a rest) :
    Reads (firstOf p q) words a rest := by
  intro good session faces
  obtain ⟨failure, after, hrun, alive, hafter⟩ := hp good session.trying (faces.of_eq rfl rfl rfl rfl)
  obtain ⟨final, hrun', hfinal⟩ :=
    hq.alternative good after.settled (hafter.of_eq rfl rfl rfl rfl)
  refine ⟨final, ?_, hfinal⟩
  rw [firstOf, alternative_error hrun]
  simp only [alive]
  exact hrun'

/-- An optional part that is there is read. -/
theorem optional_some (h : Reads p words a rest table) :
    Reads (optional p) words (some a) rest table := by
  intro good session faces
  obtain ⟨after, hrun, hafter⟩ := h.speculate good session faces
  refine ⟨after, ?_, hafter⟩
  rw [Parser.optional, hrun]

/-- An optional part that is not there is left out. -/
theorem optional_none (h : Fails p words) : Reads (optional p) words none words := by
  intro good session faces
  obtain ⟨failure, after, hrun, alive, hafter⟩ := h good session.trying (faces.of_eq rfl rfl rfl rfl)
  refine ⟨after.settled, ?_, hafter.of_eq rfl rfl rfl rfl⟩
  rw [Parser.optional, speculate_error hrun]
  simp only [alive]
  rfl

/-- What needs no recovery is read. -/
theorem orRecover (sync : List TokenKind) (ifFailed : α) (h : Reads p words a rest table) :
    Reads (orRecover p sync ifFailed) words a rest table := by
  intro good session faces
  obtain ⟨after, hrun, hafter⟩ := h good session faces
  refine ⟨after, ?_, hafter⟩
  rw [Parser.orRecover, hrun]

/-! ### Repetition -/

end Reads

/-- A repetition gets from one state and words to another state and words, without being done.  Each
step leaves fewer words. -/
inductive Repeats (table : PrecedenceTable) (step : σ → Parser (Step σ)) :
    σ → List Word → σ → List Word → Prop
  | refl (state : σ) (words : List Word) : Repeats table step state words state words
  | cons {state state' final : σ} {words words' rest : List Word} :
      Reads (step state) words (.more state') words' table → words'.length < words.length →
      Repeats table step state' words' final rest → Repeats table step state words final rest

namespace Repeats

variable {table : PrecedenceTable} {step : σ → Parser (Step σ)} {start middle final state : σ}
  {words words' rest : List Word}

/-- One repetition may go on behind another one. -/
theorem trans (h : Repeats table step start words middle words')
    (h' : Repeats table step middle words' final rest) :
    Repeats table step start words final rest := by
  induction h with
  | refl => exact h'
  | cons first shorter _ ih => exact .cons first shorter (ih h')

/-- A step that reads a word and what follows it may go before a repetition. -/
theorem word_cons {word : Word} {front : List Word}
    (first : Reads (step start) (word :: (front ++ words)) (.more middle) words table)
    (h : Repeats table step middle words final rest) :
    Repeats table step start (word :: (front ++ words)) final rest := by
  have shorter : words.length < (word :: (front ++ words)).length := by
    simp only [List.length_cons, List.length_append]
    omega
  exact .cons first shorter h

/-- A repetition that gets to a state in which it is done yields what the state yields. -/
theorem repeatAtMost (h : Repeats table step start words state words')
    (done : Reads (step state) words' (.done final) rest table) (count : Nat)
    (enough : words.length < count) :
    Reads (repeatAtMost step count start) words final rest table := by
  induction h generalizing count with
  | refl =>
    obtain ⟨count, rfl⟩ : ∃ count', count = count' + 1 := ⟨count - 1, by omega⟩
    exact done.bind (.pure final rest)
  | cons first shorter _ ih =>
    obtain ⟨count, rfl⟩ : ∃ count', count = count' + 1 := ⟨count - 1, by omega⟩
    exact first.bind (ih done count (by omega))

/-- A repetition that gets to a state in which it is done reads what it has got to. -/
theorem iterate (h : Repeats table step start words state words')
    (done : Reads (step state) words' (.done final) rest table) :
    Reads (iterate step start) words final rest table :=
  (Reads.remaining words).bind (h.repeatAtMost done _ (Nat.lt_succ_self _))

end Repeats

/-- An operand is read, and a repetition gets from its value to the final one. -/
def Chains (operand : Parser σ) (step : σ → Parser (Step σ)) (words : List Word) (final : σ)
    (rest : List Word) (table : PrecedenceTable := .adql) : Prop :=
  ∃ first middle, Reads operand words first middle table ∧
    Repeats table step first middle final rest

namespace Chains

variable {table : PrecedenceTable} {operand : Parser σ} {step : σ → Parser (Step σ)}
  {middle final : σ} {words rest : List Word}

/-- An operand alone is a chain. -/
theorem of_reads (h : Reads operand words final rest table) :
    Chains operand step words final rest table :=
  ⟨final, rest, h, .refl final rest⟩

/-- A chain goes on with a step that reads something. -/
theorem snoc {front : List Word} (nonempty : front ≠ [])
    (h : Chains operand step words middle (front ++ rest) table)
    (next : Reads (step middle) (front ++ rest) (.more final) rest table) :
    Chains operand step words final rest table := by
  obtain ⟨first, inner, hfirst, steps⟩ := h
  have shorter : rest.length < (front ++ rest).length := by
    have := List.length_pos_iff.mpr nonempty
    rw [List.length_append]
    omega
  exact ⟨first, inner, hfirst, steps.trans (.cons next shorter (.refl final rest))⟩

/-- A chain is read to where no step goes on with it. -/
theorem reads (h : Chains operand step words final rest table)
    (done : Reads (step final) rest (.done final) rest table) :
    Reads (operand >>= iterate step) words final rest table := by
  obtain ⟨first, middle, hfirst, steps⟩ := h
  exact hfirst.bind (steps.iterate done)

end Chains

/-! ### Rules -/

namespace Reads

variable {rule : Rule} {words rest : List Word} {value : rule.Result} {allowance : Nat}
  {table : PrecedenceTable}

/-- The application of a rule is counted. -/
theorem countRule (rule : Rule) (words : List Word) :
    Reads (countRule rule) words () words table := by
  unfold Grammar.countRule
  split
  · intro good session faces
    refine ⟨session.counted, ?_, faces.of_eq rfl rfl rfl rfl⟩
    have unbounded : overBudget session.counted = none := by
      rw [overBudget, show session.counted.settings.ruleBudget = none from faces.unbounded]
      rfl
    rw [countInvocation_run, faces.running, unbounded]
    rfl
  · exact .pure () words

/-- A rule reads what its body reads. -/
theorem apply (h : Reads (body true (apply true allowance) rule) words value rest table) :
    Reads (Grammar.apply true (allowance + 1) rule) words value rest table := by
  refine (countRule rule words).bind fun good session faces => ?_
  obtain ⟨after, hrun, hafter⟩ := h good (inside rule session) (faces.of_eq rfl rfl rfl rfl)
  refine ⟨outside rule after, ?_, hafter.of_eq rfl rfl rfl rfl⟩
  rw [nested, hrun]

end Reads

/-! ### Failures -/

namespace Fails

variable {p : Parser α} {f : α → Parser β} {words middle : List Word} {a : α} {rule : Rule}
  {allowance : Nat}

/-- A parser that fails where it stands stalls. -/
theorem stalls (h : Fails p words) : Stalls p words := by
  intro good session faces
  obtain ⟨failure, after, hrun, alive, hafter⟩ := h good session faces
  exact ⟨failure, after, words, hrun, alive, hafter⟩

end Fails

namespace Stalls

variable {p : Parser α} {f : α → Parser β} {words middle : List Word} {a : α} {kind : TokenKind}
  {rule : Rule} {allowance : Nat}

/-- There is nothing to be read. -/
theorem fail (words : List Word) : Stalls (fail : Parser α) words :=
  fun _ session faces => ⟨session.failure, session, words, rfl, session.failure_fatal, faces⟩

/-- Something else was expected. -/
theorem failExpecting (kinds : List TokenKind) (words : List Word) :
    Stalls (failExpecting kinds : Parser α) words :=
  fun _ _ faces => ⟨_, _, words, rfl, Session.failure_fatal _, faces.foldl_noting kinds⟩

/-- A sequence stalls where its first part does. -/
theorem bind_left (h : Stalls p words) : Stalls (p >>= f) words := by
  intro good session faces
  obtain ⟨failure, after, rest, hrun, alive, hafter⟩ := h good session faces
  exact ⟨failure, after, rest, bind_run_error.mpr (.inl hrun), alive, hafter⟩

/-- A sequence stalls where its rest does. -/
theorem bind_right (hp : Reads p words a middle) (hf : Stalls (f a) middle) :
    Stalls (p >>= f) words := by
  intro good session faces
  obtain ⟨between, hrun, faces⟩ := hp good session faces
  obtain ⟨failure, after, rest, hrun', alive, hafter⟩ := hf good between faces
  exact ⟨failure, after, rest, bind_run_error.mpr (.inr ⟨a, between, hrun, hrun'⟩), alive, hafter⟩

/-- What follows a look at the current token stalls if it does so for every token of the first word,
or of the end marker. -/
theorem current_bind {f : Token → Parser α}
    (h : ∀ token, token.word = words.headD endWord → Stalls (f token) words) :
    Stalls (current >>= f) words :=
  fun _ session faces => h session.current faces.current_word _ session faces

/-- What follows a look at the current token stalls if it does so for every token of the kind of the
first word. -/
theorem current_kind_bind {f : Token → Parser α}
    (h : ∀ token, token.kind = firstKind words → Stalls (f token) words) :
    Stalls (current >>= f) words :=
  fun _ session faces => h session.current faces.current_kind _ session faces

/-- A word that has to be there and is not. -/
theorem expect (h : firstKind words ≠ kind) : Stalls (expect kind) words :=
  .bind_right (.check_false h) (.fail words)

/-- What follows a token stalls if it does so for every token of the word. -/
theorem advance_bind {word : Word} {f : Token → Parser β}
    (h : ∀ token, token.word = word → Stalls (f token) words) :
    Stalls (advance >>= f) (word :: words) :=
  fun _ session faces => h session.current faces.current_word _ _ faces.advance

/-- A word that has to be there and is, in front of what stalls. -/
theorem expect_bind {word : Word} {q : Parser β} (h : word.kind = kind) (hq : Stalls q words) :
    Stalls (Parser.expect kind >>= fun _ => q) (word :: words) := by
  unfold Parser.expect
  rw [bind_assoc]
  have there : firstKind (word :: words) = kind := h
  exact .bind_right (.check_true there) (advance_bind fun _ _ => hq)

/-- A rule with a name goes back to where it began if it stalls. -/
theorem fails (named : rule.name?.isSome = true)
    (h : Stalls (Grammar.apply true allowance rule) words) :
    Fails (Grammar.apply true allowance rule) words := by
  intro good session faces
  obtain ⟨failure, after, rest, hrun, alive, hafter⟩ := h good session faces
  have follows := ((apply_moving true allowance rule).1 session).follows_error hrun
  exact ⟨failure, after, hrun, alive,
    faces.restored hafter follows.tokens (position_apply_error named hrun)⟩

/-- A rule stalls if its body does. -/
theorem apply (h : Stalls (body true (apply true allowance) rule) words) :
    Stalls (Grammar.apply true (allowance + 1) rule) words := by
  refine .bind_right (.countRule rule words) fun good session faces => ?_
  obtain ⟨failure, after, rest, hrun, alive, hafter⟩ :=
    h good (inside rule session) (faces.of_eq rfl rfl rfl rfl)
  have closed : (outsideFailed rule session.cursor.position after).Faces
      (outsideFailed rule session.cursor.position after).words .adql good := by
    unfold outsideFailed
    split
    · exact (hafter.moveTo session.cursor.position).of_eq rfl rfl rfl rfl
    · exact { hafter with words_eq := rfl }
  refine ⟨failure, _, _, ?_, alive, closed⟩
  rw [nested, hrun]

end Stalls

end Adql
