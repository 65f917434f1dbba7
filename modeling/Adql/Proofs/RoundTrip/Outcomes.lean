import Adql.Proofs.RoundTrip.Nearby

/-!
# Outcomes

In front of given words a rule reads a value, stalls, or ends the parse because it nests too deep
(`apply_outcome`).  What it does where it may nest deeper, it also does where it may nest less deep,
unless it nests too deep there (`Reads.settled`).

A parser without rules is decided: it reads a value or stalls.
-/

namespace Adql

open Adql.Parser Adql.Grammar

variable {α β σ : Type}

/-- Some session stands in front of the words, which are good. -/
def Faced (words : List Word) (good : Word → Prop := Word.Sound) : Prop :=
  ∃ session : Session, session.Faces words .adql good

/-- If nothing is asked of the words, there is a session. -/
theorem Faced.any (words : List Word) : Faced words fun _ => True :=
  ⟨_, Session.faces_facing words .adql⟩

/-- In front of the words, the parser ends the parse. -/
def Aborts (parser : Parser α) (words : List Word) : Prop :=
  ∀ (good : Word → Prop) (session : Session), session.Faces words .adql good →
    ∃ failure after, parser session = .error failure after ∧ failure.fatal = true

/-- Behind the first word there are words as well. -/
theorem Faced.tail {word : Word} {rest : List Word} {good : Word → Prop}
    (h : Faced (word :: rest) good) : Faced rest good := by
  obtain ⟨session, faces⟩ := h
  exact ⟨_, faces.advance⟩

namespace Reads

variable {p : Parser α} {words rest rest' : List Word} {a b : α}

/-- What is read leaves words for the session behind it. -/
theorem faced {good : Word → Prop} (h : Reads p words a rest) (faced : Faced words good) :
    Faced rest good := by
  obtain ⟨session, faces⟩ := faced
  obtain ⟨after, _, hafter⟩ := h _ session faces
  exact ⟨after, hafter⟩

/-- A parser reads only one value from the words. -/
theorem unique {table : PrecedenceTable} (h : Reads p words a rest table)
    (h' : Reads p words b rest' table) : a = b ∧ rest = rest' := by
  have faces := Session.faces_facing words table
  obtain ⟨after, hrun, hafter⟩ := h _ _ faces
  obtain ⟨after', hrun', hafter'⟩ := h' _ _ faces
  rw [hrun] at hrun'
  cases hrun'
  exact ⟨rfl, hafter.words_eq.symm.trans hafter'.words_eq⟩

/-- A parser that reads a value does not stall. -/
theorem not_stalls (h : Reads p words a rest) : ¬Stalls p words := by
  intro stalls
  have faces := Session.faces_facing words .adql
  obtain ⟨_, hrun, _⟩ := h _ _ faces
  obtain ⟨_, _, _, hrun', _⟩ := stalls _ _ faces
  rw [hrun] at hrun'
  cases hrun'

end Reads

/-- A parser that stalls does not succeed. -/
theorem Stalls.ensures {p : Parser α} {words : List Word} {Q : α → List Word → Prop}
    {good : Word → Prop} (h : Stalls p words) : Ensures p words Q good := by
  intro session after value faces hrun
  obtain ⟨_, _, _, hrun', _⟩ := h _ session faces
  rw [hrun] at hrun'
  cases hrun'

namespace Ensures

variable {p : Parser α} {words rest : List Word} {a : α} {Q : α → List Word → Prop}
  {good : Word → Prop}

/-- Where there are no words for a session, nothing has to be ensured. -/
theorem of_faced (h : Faced words good → Ensures p words Q good) : Ensures p words Q good :=
  fun session after value faces hrun => h ⟨session, faces⟩ session after value faces hrun

/-- What is ensured holds of what is read. -/
theorem of_reads (h : Ensures p words Q good) (hread : Reads p words a rest)
    (faced : Faced words good) : Q a rest := by
  obtain ⟨session, faces⟩ := faced
  obtain ⟨after, hrun, hafter⟩ := hread _ session faces
  obtain ⟨rest', hafter', hQ⟩ := h session after a faces hrun
  rw [← hafter.words_eq, hafter'.words_eq]
  exact hQ

/-- A parser that does not tell sessions in front of the same words apart leaves words. -/
theorem of_nearby (h : nearby.rel Eq p p) (words : List Word) :
    Ensures p words (fun _ _ => True) good := by
  intro session after value faces hrun
  have self := h _ _ words session session faces faces
  rw [hrun] at self
  cases self with
  | ok _ hafter _ => exact ⟨_, hafter, trivial⟩

end Ensures

namespace Stalls

variable {p q : Parser α} {words : List Word}

/-- A choice stalls where both alternatives do. -/
theorem firstOf (hp : Fails p words) (hq : Stalls q words) : Stalls (firstOf p q) words := by
  intro good session faces
  obtain ⟨failure, after, hrun, alive, hafter⟩ := hp good session.trying
    (faces.of_eq rfl rfl rfl rfl)
  have settled : after.settled.Faces words .adql good := hafter.of_eq rfl rfl rfl rfl
  obtain ⟨failure', after', rest, hrun', alive', hafter'⟩ := hq good after.settled.trying
    (settled.of_eq rfl rfl rfl rfl)
  refine ⟨failure', after'.settled, rest, ?_, alive', hafter'.of_eq rfl rfl rfl rfl⟩
  rw [Parser.firstOf, alternative_error hrun]
  simp only [alive]
  exact alternative_error hrun'

/-- There is no recovery. -/
theorem orRecover (sync : List TokenKind) (ifFailed : α) (h : Stalls p words) :
    Stalls (orRecover p sync ifFailed) words := by
  intro good session faces
  obtain ⟨failure, after, rest, hrun, alive, hafter⟩ := h good session faces
  refine ⟨failure, after, rest, ?_, alive, hafter⟩
  rw [Parser.orRecover, hrun]
  refine bind_run_error.mpr (.inl ?_)
  rw [recoverFrom_run, if_pos (by simp [Session.canRecover, hafter.strict])]

end Stalls

/-! ### Parses that end -/

namespace Aborts

variable {p q : Parser α} {f : α → Parser β} {words middle : List Word} {a : α} {rule : Rule}
  {allowance : Nat}

/-- A sequence ends the parse where its first part does. -/
theorem bind_left (h : Aborts p words) : Aborts (p >>= f) words := by
  intro good session faces
  obtain ⟨failure, after, hrun, fatal⟩ := h _ session faces
  exact ⟨failure, after, bind_run_error.mpr (.inl hrun), fatal⟩

/-- A sequence ends the parse where its rest does. -/
theorem bind_right (hp : Reads p words a middle) (hf : Aborts (f a) middle) :
    Aborts (p >>= f) words := by
  intro good session faces
  obtain ⟨between, hrun, faces⟩ := hp _ session faces
  obtain ⟨failure, after, hrun', fatal⟩ := hf _ between faces
  exact ⟨failure, after, bind_run_error.mpr (.inr ⟨a, between, hrun, hrun'⟩), fatal⟩

/-- What follows a look at the current token ends the parse if it does so for every token of the first
word, or of the end marker. -/
theorem current_bind {f : Token → Parser β}
    (h : ∀ token, token.word = words.headD endWord → Aborts (f token) words) :
    Aborts (current >>= f) words :=
  fun _ session faces => h session.current faces.current_word _ session faces

/-- What follows a token ends the parse if it does so for every token of the word. -/
theorem advance_bind {word : Word} {f : Token → Parser β}
    (h : ∀ token, token.word = word → Aborts (f token) words) :
    Aborts (advance >>= f) (word :: words) :=
  fun _ session faces => h session.current faces.current_word _ _ faces.advance

/-- Behind a word that has to be there and is. -/
theorem expect_bind {kind : TokenKind} {word : Word} {q : Parser β} (h : word.kind = kind)
    (hq : Aborts q words) : Aborts (expect kind >>= fun _ => q) (word :: words) := by
  unfold expect
  rw [bind_assoc]
  have there : firstKind (word :: words) = kind := h
  exact .bind_right (.check_true there) (advance_bind fun _ _ => hq)

/-- A choice ends the parse where its first alternative does. -/
theorem firstOf_left (h : Aborts p words) : Aborts (firstOf p q) words := by
  intro good session faces
  obtain ⟨failure, after, hrun, fatal⟩ := h good session.trying (faces.of_eq rfl rfl rfl rfl)
  refine ⟨failure, after.settled, ?_, fatal⟩
  rw [firstOf, alternative_error hrun]
  simp only [fatal]
  rfl

/-- A choice ends the parse where its second alternative does. -/
theorem firstOf_right (hp : Fails p words) (hq : Aborts q words) : Aborts (firstOf p q) words := by
  intro good session faces
  obtain ⟨failure, after, hrun, alive, hafter⟩ := hp good session.trying
    (faces.of_eq rfl rfl rfl rfl)
  have settled : after.settled.Faces words .adql good := hafter.of_eq rfl rfl rfl rfl
  obtain ⟨failure', after', hrun', fatal⟩ := hq good after.settled.trying
    (settled.of_eq rfl rfl rfl rfl)
  refine ⟨failure', after'.settled, ?_, fatal⟩
  rw [firstOf, alternative_error hrun]
  simp only [alive]
  exact alternative_error hrun'

/-- An optional part ends the parse where it would without being optional. -/
theorem optional (h : Aborts p words) : Aborts (optional p) words := by
  intro good session faces
  obtain ⟨failure, after, hrun, fatal⟩ := h good session.trying (faces.of_eq rfl rfl rfl rfl)
  refine ⟨failure, after.settled, ?_, fatal⟩
  rw [Parser.optional, speculate_error hrun]
  simp only [fatal]
  rfl

/-- There is no recovery from a limit. -/
theorem orRecover (sync : List TokenKind) (ifFailed : α) (h : Aborts p words) :
    Aborts (orRecover p sync ifFailed) words := by
  intro good session faces
  obtain ⟨failure, after, hrun, fatal⟩ := h good session faces
  refine ⟨failure, after, ?_, fatal⟩
  rw [Parser.orRecover, hrun]
  refine bind_run_error.mpr (.inl ?_)
  rw [recoverFrom_run, if_pos (by simp [fatal])]

/-- A rule without allowance ends the parse. -/
theorem apply_zero (rule : Rule) (words : List Word) : Aborts (apply true 0 rule) words :=
  .bind_right (.countRule rule words) fun _ session _ => ⟨_, _, refuseDepth_run session, rfl⟩

/-- A rule ends the parse where its body does. -/
theorem apply_succ (h : Aborts (body true (apply true allowance) rule) words) :
    Aborts (apply true (allowance + 1) rule) words := by
  refine .bind_right (.countRule rule words) fun _ session faces => ?_
  obtain ⟨failure, after, hrun, fatal⟩ :=
    h _ (inside rule session) (faces.of_eq rfl rfl rfl rfl)
  refine ⟨failure, outsideFailed rule session.cursor.position after, ?_, fatal⟩
  rw [nested, hrun]

/-- A parser that ends the parse reads no value. -/
theorem not_reads {rest : List Word} (h : Aborts p words) : ¬Reads p words a rest := by
  intro reads
  have faces := Session.faces_facing words .adql
  obtain ⟨_, _, hrun, _⟩ := h _ _ faces
  obtain ⟨_, hrun', _⟩ := reads _ _ faces
  rw [hrun] at hrun'
  cases hrun'

/-- A parser that ends the parse does not fail in another way. -/
theorem not_stalls (h : Aborts p words) : ¬Stalls p words := by
  intro stalls
  have faces := Session.faces_facing words .adql
  obtain ⟨_, _, hrun, fatal⟩ := h _ _ faces
  obtain ⟨_, _, _, hrun', alive, _⟩ := stalls _ _ faces
  rw [hrun] at hrun'
  cases hrun'
  rw [fatal] at alive
  cases alive

end Aborts

/-! ### Rules -/

section

variable {rule : Rule} {allowance allowance' : Nat} {words rest : List Word} {a : rule.Result}

/-- In front of the words, a rule reads a value, stalls, or ends the parse. -/
theorem apply_outcome (rule : Rule) (allowance : Nat) (words : List Word) :
    (∃ value rest, Reads (apply true allowance rule) words value rest) ∨
      Stalls (apply true allowance rule) words ∨ Aborts (apply true allowance rule) words := by
  have faces := Session.faces_facing words .adql
  cases hrun : apply true allowance rule (Session.facing words .adql) with
  | ok value after =>
    obtain ⟨rest, _, reads⟩ := Reads.of_run faces hrun
    exact .inl ⟨value, rest, reads allowance (Nat.le_refl _)⟩
  | error failure after =>
    cases hfatal : failure.fatal with
    | false => exact .inr (.inl (.of_run faces hrun hfatal (Nat.le_refl _)))
    | true =>
      -- another run in front of the same words cannot end in another way
      refine .inr (.inr fun good session' faces' => ?_)
      have other := apply_nearby (Nat.le_refl allowance) rule _ _ words session' _ faces' faces
      rw [hrun] at other
      generalize apply true allowance rule session' = result at other
      cases other with
      | failed _ alive _ _ => rw [hfatal] at alive; cases alive
      | ended fatal => exact ⟨_, _, rfl, fatal⟩

/-- What a rule reads, it reads wherever it may nest deeper. -/
theorem Reads.of_le (h : Reads (Grammar.apply true allowance rule) words a rest)
    (more : allowance ≤ allowance') : Reads (Grammar.apply true allowance' rule) words a rest := by
  have faces := Session.faces_facing words .adql
  obtain ⟨after, hrun, hafter⟩ := h _ _ faces
  obtain ⟨rest', hafter', reads⟩ := Reads.of_run faces hrun
  rw [← hafter.words_eq, hafter'.words_eq]
  exact reads allowance' more

/-- What a rule fails at, it fails at wherever it may nest deeper. -/
theorem Stalls.of_le (h : Stalls (Grammar.apply true allowance rule) words)
    (more : allowance ≤ allowance') : Stalls (Grammar.apply true allowance' rule) words := by
  have faces := Session.faces_facing words .adql
  obtain ⟨_, _, _, hrun, alive, _⟩ := h _ _ faces
  exact .of_run faces hrun alive more

/-- A rule that stalls where it may nest deep does not succeed elsewhere either. -/
theorem Stalls.never {Q : rule.Result → List Word → Prop}
    {good : Word → Prop} (h : Stalls (Grammar.apply true allowance' rule) words)
    (allowance : Nat) : Ensures (Grammar.apply true allowance rule) words Q good := by
  refine (Ensures.reads rule allowance words).mono fun a rest reads => ?_
  have high := reads _ (Nat.le_max_left allowance allowance')
  exact absurd (h.of_le (Nat.le_max_right allowance allowance')) high.not_stalls

/-- What a rule reads, it reads wherever it does not nest too deep. -/
theorem Reads.settled (h : Reads (Grammar.apply true allowance' rule) words a rest)
    (allowance : Nat) :
    Reads (Grammar.apply true allowance rule) words a rest ∨
      Aborts (Grammar.apply true allowance rule) words := by
  have high := h.of_le (Nat.le_max_right allowance allowance')
  rcases apply_outcome rule allowance words with ⟨b, rest', reads⟩ | stalls | aborts
  · have high' := reads.of_le (Nat.le_max_left allowance allowance')
    obtain ⟨rfl, rfl⟩ := high'.unique high
    exact .inl reads
  · have stalls' := stalls.of_le (Nat.le_max_left allowance allowance')
    exact absurd stalls' high.not_stalls
  · exact .inr aborts

end

/-! ### Parsers without rules -/

/-- Where there is no name, none is read. -/
theorem identifier_stalls {words : List Word} (h : (firstKind words).isIdentifier = false) :
    Stalls identifier words := by
  have missing {kind : TokenKind} (hkind : kind.isIdentifier = true) : firstKind words ≠ kind := by
    intro same
    rw [same, hkind] at h
    cases h
  exact .bind_right (.check_false (missing rfl)) (.bind_right (.check_false (missing rfl))
    (.fail words))

/-- A name is read from its word, whatever stands behind it; in front of anything else, there is
none. -/
theorem identifier_decided (words : List Word) :
    (∃ name word rest, words = word :: rest ∧ word.kind.isIdentifier = true ∧
      ∀ behind, Reads identifier (word :: behind) name behind) ∨
    (firstKind words).isIdentifier = false ∧ Stalls identifier words := by
  by_cases regular : firstKind words = .identifier
  · obtain ⟨word, rest, rfl, hkind⟩ := exists_cons_of_firstKind (by nofun) regular
    refine .inl ⟨.regular word.lexeme, word, rest, rfl, hkind ▸ rfl, fun behind => ?_⟩
    have there : firstKind (word :: behind) = .identifier := hkind
    refine (Reads.check_true there).bind (.advance_bind fun token same => ?_)
    rw [show token.lexeme = word.lexeme from congrArg Word.lexeme same]
    exact .pure _ _
  by_cases delimited : firstKind words = .delimitedIdentifier
  · obtain ⟨word, rest, rfl, hkind⟩ := exists_cons_of_firstKind (by nofun) delimited
    refine .inl ⟨.delimited (Text.unquoted '"' word.lexeme), word, rest, rfl, hkind ▸ rfl,
      fun behind => ?_⟩
    have other : firstKind (word :: behind) ≠ .identifier := regular
    have there : firstKind (word :: behind) = .delimitedIdentifier := hkind
    refine (Reads.check_false other).bind ((Reads.check_true there).bind ?_)
    refine .advance_bind fun token same => ?_
    rw [show token.lexeme = word.lexeme from congrArg Word.lexeme same]
    exact .pure _ _
  · have missing : (firstKind words).isIdentifier = false := by
      cases hkind : firstKind words with
      | identifier => exact absurd hkind regular
      | delimitedIdentifier => exact absurd hkind delimited
      | _ => rfl
    exact .inr ⟨missing, identifier_stalls missing⟩

/-- In front of the words, the parser reads a value or stalls. -/
def Decided (parser : Parser α) (words : List Word) : Prop :=
  (∃ value rest, Reads parser words value rest) ∨ Stalls parser words

namespace Decided

variable {p : Parser α} {f : α → Parser β} {words : List Word}

/-- A value that is yielded at once. -/
theorem pure (a : α) (words : List Word) : Decided (pure a) words :=
  .inl ⟨a, words, .pure a words⟩

/-- A sequence of parsers that are decided. -/
theorem bind (hp : Decided p words) (hf : ∀ a rest, Decided (f a) rest) :
    Decided (p >>= f) words := by
  rcases hp with ⟨a, middle, reads⟩ | stalls
  · rcases hf a middle with ⟨b, rest, reads'⟩ | stalls
    · exact .inl ⟨b, rest, reads.bind reads'⟩
    · exact .inr (.bind_right reads stalls)
  · exact .inr stalls.bind_left

/-- A word that may be eaten. -/
theorem eat (kind : TokenKind) (hkind : kind ≠ .eof) (words : List Word) :
    Decided (eat kind) words := by
  by_cases there : firstKind words = kind
  · obtain ⟨word, rest, rfl, same⟩ := exists_cons_of_firstKind hkind there
    exact .inl ⟨true, rest, .eat_true same⟩
  · exact .inl ⟨false, words, .eat_false there⟩

/-- A word that has to be there. -/
theorem expect_bind {q : Parser β} (kind : TokenKind) (hkind : kind ≠ .eof)
    (hq : ∀ rest, Decided q rest) (words : List Word) :
    Decided (expect kind >>= fun _ => q) words := by
  by_cases there : firstKind words = kind
  · obtain ⟨word, rest, rfl, same⟩ := exists_cons_of_firstKind hkind there
    rcases hq rest with ⟨b, rest', reads⟩ | stalls
    · exact .inl ⟨b, rest', .expect_bind same reads⟩
    · exact .inr (.expect_bind same stalls)
  · exact .inr (Stalls.expect there).bind_left

/-- A name. -/
theorem identifier (words : List Word) : Decided identifier words := by
  rcases identifier_decided words with ⟨name, word, rest, rfl, _, reads⟩ | ⟨_, stalls⟩
  · exact .inl ⟨name, rest, reads rest⟩
  · exact .inr stalls

/-- A repetition of steps that are decided. -/
theorem iterate {step : σ → Parser (Step σ)} (h : ∀ state words, Decided (step state) words)
    (start : σ) (words : List Word) : Decided (iterate step start) words := by
  refine bind (.inl ⟨_, words, .remaining words⟩) fun count words => ?_
  induction count + 1 generalizing start words with
  | zero => exact .pure start words
  | succ count ih =>
    refine bind (h start words) fun next rest => ?_
    cases next with
    | more state => exact ih state rest
    | done state => exact .pure state rest

end Decided

end Adql
