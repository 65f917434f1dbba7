import Adql.Proofs.Expected.Notes
import Adql.Proofs.RoundTrip.Outcomes

/-!
# Notes in front of the last words

A rule that gets to its end in front of some words may still have looked at them: it tried to go on,
and gave up.  `NotesWithin` says that it has noted nothing behind the first one of them.  With the words
counted from the end of the text, this says the same of a parser and of the parsers behind it.

`ReadsWithin`, `StallsWithin` and `AbortsWithin` are the three outcomes of a parser in front of words,
together with this.  There is one lemma for each primitive parser and for each way to combine parsers.
-/

namespace Adql

open Adql.Parser Adql.Grammar

variable {α β σ : Type}

/-! ### Notes -/

/-- Of so many last tokens, at most the first one has notes about it. -/
structure Session.NotesUpTo (session : Session) (last : Nat) : Prop where
  /-- There are last tokens. -/
  pos : 0 < last
  /-- The notes are about the first one of them, or about a token in front of it. -/
  noted : ∀ furthest, session.furthest = some furthest →
    furthest.position + last ≤ session.cursor.tokens.size

namespace Session.NotesUpTo

variable {session after : Session} {last fewer : Nat}

/-- Without notes, there are none about the last tokens. -/
theorem of_none (none : session.furthest = none) (pos : 0 < last) : session.NotesUpTo last :=
  ⟨pos, fun _ some => nomatch none.symm.trans some⟩

/-- The last tokens are the same in a session with the same tokens, and the notes may be the same. -/
theorem of_eq (h : session.NotesUpTo last) (furthest : after.furthest = session.furthest)
    (tokens : after.cursor.tokens = session.cursor.tokens) : after.NotesUpTo last where
  pos := h.pos
  noted := by
    rw [furthest, tokens]
    exact h.noted

/-- There may be fewer last tokens. -/
theorem mono (h : session.NotesUpTo last) (pos : 0 < fewer) (le : fewer ≤ last) :
    session.NotesUpTo fewer :=
  ⟨pos, fun furthest some => Nat.le_trans (Nat.add_le_add_left le _) (h.noted furthest some)⟩

/-- In front of the last tokens, and at the first one of them, there are no notes behind the cursor. -/
theorem not_ahead (h : session.NotesUpTo last)
    (here : session.cursor.tokens.size ≤ session.cursor.position + last) : ¬session.NotesAhead := by
  rintro ⟨furthest, notes, ahead⟩
  have := h.noted furthest notes
  omega

/-- A kind may be noted in front of the last tokens, and at the first one of them. -/
theorem noting (h : session.NotesUpTo last)
    (room : session.cursor.position + last ≤ session.cursor.tokens.size) (kind : TokenKind) :
    (session.noting kind).NotesUpTo last := by
  by_cases ahead : session.NotesAhead
  · rwa [noting_of_ahead ahead]
  · obtain ⟨furthest, noted, here, -⟩ := exists_noting ahead kind
    rw [noted]
    refine ⟨h.pos, ?_⟩
    rintro _ ⟨⟩
    exact here.symm ▸ room

/-- Several kinds may be noted in front of the last tokens, and at the first one of them. -/
theorem foldl_noting (h : session.NotesUpTo last)
    (room : session.cursor.position + last ≤ session.cursor.tokens.size) (kinds : List TokenKind) :
    (kinds.foldl Session.noting session).NotesUpTo last := by
  induction kinds generalizing session with
  | nil => exact h
  | cons kind kinds ih =>
    have noted := h.noting room kind
    refine ih noted ?_
    rw [cursor_noting]
    exact room

/-- Notes may be dropped. -/
theorem dropNotesAhead (h : session.NotesUpTo last) :
    (Parser.dropNotesAhead session).NotesUpTo last := by
  unfold Parser.dropNotesAhead
  cases notes : session.furthest with
  | none => exact h
  | some furthest =>
    dsimp only
    split
    · exact of_none rfl h.pos
    · exact h

end Session.NotesUpTo

/-- Where there are as many words ahead as last tokens, the cursor is in front of these, or at the first
one of them. -/
theorem Session.Faces.room {session : Session} {words : List Word} {table : PrecedenceTable}
    {good : Word → Prop} (faces : session.Faces words table good) {last : Nat} (pos : 0 < last)
    (enough : last ≤ words.length) :
    session.cursor.position + last ≤ session.cursor.tokens.size := by
  have remaining := faces.remaining
  rw [TokenCursor.remaining] at remaining
  omega

/-- A parser that fails where it stands has left the words. -/
theorem Fails.settles {p : Parser α} {words : List Word} (h : Fails p words) {good : Word → Prop}
    {session after : Session} {failure : Failure} (faces : session.Faces words .adql good)
    (run : p session = .error failure after) : after.Faces words .adql good := by
  obtain ⟨_, _, run', _, hafter⟩ := h good session faces
  rw [run] at run'
  cases run'
  exact hafter

/-- In front of the words, the parser notes nothing about the last words but the first one of them. -/
def NotesWithin (last : Nat) (parser : Parser α) (words : List Word) : Prop :=
  ∀ (good : Word → Prop) (session : Session), session.Faces words .adql good →
    ∀ fewer ≤ last, session.NotesUpTo fewer → (sessionAfter (parser session)).NotesUpTo fewer

namespace NotesWithin

variable {last : Nat} {p q : Parser α} {f : α → Parser β} {words rest : List Word} {a : α}
  {kind : TokenKind}

/-- A parser that leaves the session as it is notes nothing. -/
theorem of_same (same : ∀ session, sessionAfter (p session) = session) : NotesWithin last p words :=
  fun _ session _ _ _ notes => (same session).symm ▸ notes

/-- What is noted in a sequence is noted in its parts. -/
theorem bind_run {session : Session} {fewer : Nat}
    (first : (sessionAfter (p session)).NotesUpTo fewer)
    (second : ∀ a after, p session = .ok a after → after.NotesUpTo fewer →
      (sessionAfter (f a after)).NotesUpTo fewer) :
    (sessionAfter ((p >>= f) session)).NotesUpTo fewer := by
  change (sessionAfter (EStateM.bind p f session)).NotesUpTo fewer
  unfold EStateM.bind
  cases run : p session with
  | ok a after =>
    rw [run] at first
    exact second a after run first
  | error failure after =>
    rw [run] at first
    exact first

/-- What is noted in a sequence is noted in its parts. -/
theorem bind (hp : NotesWithin last p words) (reads : Reads p words a rest)
    (hf : NotesWithin last (f a) rest) : NotesWithin last (p >>= f) words := by
  intro good session faces fewer le notes
  refine bind_run (hp good session faces fewer le notes) fun b after run kept => ?_
  obtain ⟨after', run', hafter⟩ := reads good session faces
  rw [run] at run'
  cases run'
  exact hf good after hafter fewer le kept

/-- Where the first part of a sequence fails, nothing else is noted. -/
theorem bind_left (hp : NotesWithin last p words)
    (fails : ∀ good session, session.Faces words .adql good →
      ∃ failure after, p session = .error failure after) : NotesWithin last (p >>= f) words := by
  intro good session faces fewer le notes
  refine bind_run (hp good session faces fewer le notes) fun b after run kept => ?_
  obtain ⟨failure, after', run'⟩ := fails good session faces
  rw [run] at run'
  cases run'

/-- What follows a look at the current token. -/
theorem current_bind {f : Token → Parser β}
    (h : ∀ token, token.word = words.headD endWord → NotesWithin last (f token) words) :
    NotesWithin last (current >>= f) words :=
  fun _ session faces => h session.current faces.current_word _ session faces

/-- What follows a token. -/
theorem advance_bind {word : Word} {f : Token → Parser β}
    (h : ∀ token, token.word = word → NotesWithin last (f token) words) :
    NotesWithin last (advance >>= f) (word :: words) := by
  intro good session faces fewer le notes
  refine h session.current faces.current_word _ _ faces.advance fewer le (notes.of_eq rfl ?_)
  change session.cursor.advance.tokens = _
  unfold TokenCursor.advance
  split <;> rfl

/-- A kind that is looked for. -/
theorem check (kind : TokenKind) (enough : last ≤ words.length) :
    NotesWithin last (check kind) words := by
  intro good session faces fewer le notes
  rw [check_run]
  split
  · exact notes
  · exact notes.noting (faces.room notes.pos (Nat.le_trans le enough)) kind

/-- A failure with notes. -/
theorem failExpecting (kinds : List TokenKind) (enough : last ≤ words.length) :
    NotesWithin last (failExpecting kinds : Parser α) words :=
  fun _ _ faces _ le notes =>
    notes.foldl_noting (faces.room notes.pos (Nat.le_trans le enough)) kinds

/-- Notes about kinds. -/
theorem noteAll (kinds : List TokenKind) (enough : last ≤ words.length) :
    NotesWithin last (noteAll kinds) words :=
  fun _ _ faces _ le notes =>
    notes.foldl_noting (faces.room notes.pos (Nat.le_trans le enough)) kinds

/-! ### Alternatives -/

/-- What is tried notes the same. -/
theorem speculate (hp : NotesWithin last p words) : NotesWithin last (speculate p) words := by
  intro good session faces fewer le notes
  have tried := hp good session.trying (faces.of_eq rfl rfl rfl rfl) fewer le (notes.of_eq rfl rfl)
  cases run : p session.trying with
  | ok a after =>
    rw [run] at tried
    rw [speculate_ok run]
    exact tried.of_eq rfl rfl
  | error failure after =>
    rw [run] at tried
    rw [speculate_error run]
    exact tried.of_eq rfl rfl

/-- An alternative notes the same. -/
theorem alternative (hp : NotesWithin last p words) : NotesWithin last (alternative p) words := by
  intro good session faces fewer le notes
  exact bind_run (hp.speculate good session faces fewer le notes)
    fun _ _ _ kept => kept.dropNotesAhead

/-- A choice between alternatives, the first of which leaves the words if it fails. -/
theorem firstOf (hp : NotesWithin last p words) (hq : NotesWithin last q words)
    (settles : ∀ good session, session.Faces words .adql good → ∀ failure after,
      p session = .error failure after → failure.fatal = false → after.Faces words .adql good) :
    NotesWithin last (firstOf p q) words := by
  intro good session faces fewer le notes
  have tried := hp.alternative good session faces fewer le notes
  unfold Parser.firstOf
  cases run : p session.trying with
  | ok a after =>
    rw [alternative_ok run] at tried ⊢
    exact tried
  | error failure after =>
    rw [alternative_error run] at tried ⊢
    dsimp only
    split
    · exact tried
    · next mild =>
      have back := settles good session.trying (faces.of_eq rfl rfl rfl rfl) failure after run
        (Bool.eq_false_iff.mpr mild)
      exact hq.alternative good after.settled (back.of_eq rfl rfl rfl rfl) fewer le tried

/-- An optional part notes the same. -/
theorem optional (hp : NotesWithin last p words) : NotesWithin last (optional p) words := by
  intro good session faces fewer le notes
  have tried := hp.speculate good session faces fewer le notes
  unfold Parser.optional
  cases run : Parser.speculate p session with
  | ok a after =>
    rw [run] at tried
    exact tried
  | error failure after =>
    rw [run] at tried
    dsimp only
    split
    · exact tried
    · exact tried

/-- What would be survived if there were recovery. -/
theorem orRecover (sync : List TokenKind) (ifFailed : α) (hp : NotesWithin last p words)
    (strict : ∀ good session, session.Faces words .adql good → ∀ failure after,
      p session = .error failure after → (failure.fatal || !after.canRecover) = true) :
    NotesWithin last (orRecover p sync ifFailed) words := by
  intro good session faces fewer le notes
  have tried := hp good session faces fewer le notes
  unfold Parser.orRecover
  cases run : p session with
  | ok a after =>
    rw [run] at tried
    exact tried
  | error failure after =>
    rw [run] at tried
    refine bind_run ?_ fun _ _ _ kept => kept
    rw [recoverFrom_run, if_pos (strict good session faces failure after run)]
    exact tried

/-! ### Rules -/

/-- The application of a rule is counted. -/
theorem countRule (rule : Rule) : NotesWithin last (countRule rule) words := by
  unfold Grammar.countRule
  split
  · intro good session faces fewer le notes
    rw [countInvocation_run]
    split
    · exact notes
    · split
      · exact notes.of_eq rfl rfl
      · exact notes.of_eq rfl rfl
  · exact of_same fun _ => rfl

/-- A rule notes what its body notes. -/
theorem apply {rule : Rule} {allowance : Nat}
    (h : NotesWithin last (body true (apply true allowance) rule) words) :
    NotesWithin last (Grammar.apply true (allowance + 1) rule) words := by
  refine (countRule rule).bind (.countRule rule words) fun good session faces fewer le notes => ?_
  have inner := h good (inside rule session) (faces.of_eq rfl rfl rfl rfl) fewer le
    (notes.of_eq rfl rfl)
  unfold nested
  cases run : body true (Grammar.apply true allowance) rule (inside rule session) with
  | ok a after =>
    rw [run] at inner
    exact inner.of_eq rfl rfl
  | error failure after =>
    rw [run] at inner
    refine inner.of_eq ?_ ?_
    · change (outsideFailed rule session.cursor.position after).furthest = after.furthest
      unfold outsideFailed
      split <;> rfl
    · change (outsideFailed rule session.cursor.position after).cursor.tokens = after.cursor.tokens
      unfold outsideFailed
      split <;> rfl

/-- A rule without allowance notes nothing. -/
theorem apply_zero (rule : Rule) : NotesWithin last (Grammar.apply true 0 rule) words := by
  refine (countRule rule).bind (.countRule rule words) fun good session faces fewer le notes => ?_
  rw [refuseDepth_run]
  dsimp only [sessionAfter]
  split
  · exact notes
  · exact notes.of_eq rfl rfl

/-! ### Names and set operators -/

/-- A name. -/
theorem identifier (enough : last ≤ words.length) : NotesWithin last identifier words := by
  have named (kind : TokenKind) (name : Token → Identifier) {other : Parser Identifier}
      (missed : NotesWithin last other words) :
      NotesWithin last (Parser.check kind >>= fun there =>
        if there then advance >>= fun token => Pure.pure (name token) else other) words := by
    by_cases there : firstKind words = kind
    · refine (check kind enough).bind (.check_true there) ?_
      rw [if_pos rfl]
      cases words with
      | nil =>
        intro good session faces fewer le notes
        exact notes.of_eq rfl (by
          change session.cursor.advance.tokens = _
          unfold TokenCursor.advance
          split <;> rfl)
      | cons word rest => exact advance_bind fun _ _ => of_same fun _ => rfl
    · refine (check kind enough).bind (.check_false there) ?_
      rw [if_neg Bool.false_ne_true]
      exact missed
  exact named .identifier (fun token => .regular token.lexeme)
    (named .delimitedIdentifier (fun token => .delimited (Text.unquoted '"' token.lexeme))
      (of_same fun _ => rfl))

/-- The set operator ahead. -/
theorem setOperator (enough : last ≤ words.length) : NotesWithin last setOperator? words := by
  have looked (kind : TokenKind) (found : Option SetOperator) {other : Parser (Option SetOperator)}
      (missed : NotesWithin last other words) :
      NotesWithin last (Parser.check kind >>= fun there =>
        if there then Pure.pure found else other) words := by
    by_cases there : firstKind words = kind
    · exact (check kind enough).bind (.check_true there) (of_same fun _ => rfl)
    · exact (check kind enough).bind (.check_false there) missed
  exact looked (.keyword .UNION) (some .union) <| looked (.keyword .EXCEPT) (some .except) <|
    looked (.keyword .INTERSECT) (some .intersect) (of_same fun _ => rfl)

end NotesWithin

/-! ### Outcomes -/

/-- In front of the words, the parser yields the value and leaves the rest, and it notes nothing about
the last words but the first one of them. -/
structure ReadsWithin (last : Nat) (p : Parser α) (words : List Word) (a : α) (rest : List Word) :
    Prop where
  /-- The value is read. -/
  reads : Reads p words a rest
  /-- Nothing is noted too far behind. -/
  keeps : NotesWithin last p words

/-- In front of the words, the parser fails, though not for good, and it notes nothing about the last
words but the first one of them. -/
structure StallsWithin (last : Nat) (p : Parser α) (words : List Word) : Prop where
  /-- The parser stalls. -/
  stalls : Stalls p words
  /-- Nothing is noted too far behind. -/
  keeps : NotesWithin last p words

/-- In front of the words, the parser ends the parse, and it notes nothing about the last words but the
first one of them. -/
structure AbortsWithin (last : Nat) (p : Parser α) (words : List Word) : Prop where
  /-- The parse is ended. -/
  aborts : Aborts p words
  /-- Nothing is noted too far behind. -/
  keeps : NotesWithin last p words

namespace ReadsWithin

variable {last : Nat} {p q : Parser α} {f : α → Parser β} {words middle rest : List Word} {a : α}
  {b : β} {word : Word} {kind : TokenKind} {rule : Rule} {allowance : Nat}

/-- A look ahead notes nothing. -/
theorem of_look (reads : Reads p words a words)
    (same : ∀ session, sessionAfter (p session) = session) : ReadsWithin last p words a words :=
  ⟨reads, .of_same same⟩

/-- A value is yielded at once. -/
theorem pure (a : α) (words : List Word) : ReadsWithin last (pure a) words a words :=
  .of_look (.pure a words) fun _ => rfl

/-- A sequence reads what its parts read. -/
theorem bind (hp : ReadsWithin last p words a middle) (hf : ReadsWithin last (f a) middle b rest) :
    ReadsWithin last (p >>= f) words b rest :=
  ⟨hp.reads.bind hf.reads, hp.keeps.bind hp.reads hf.keeps⟩

/-- What follows a look at the current token. -/
theorem current_bind {f : Token → Parser β}
    (h : ∀ token, token.word = words.headD endWord → ReadsWithin last (f token) words b rest) :
    ReadsWithin last (current >>= f) words b rest :=
  ⟨.current_bind fun token same => (h token same).reads,
    .current_bind fun token same => (h token same).keeps⟩

/-- What follows a token. -/
theorem advance_bind {f : Token → Parser β}
    (h : ∀ token, token.word = word → ReadsWithin last (f token) words b rest) :
    ReadsWithin last (advance >>= f) (word :: words) b rest :=
  ⟨.advance_bind fun token same => (h token same).reads,
    .advance_bind fun token same => (h token same).keeps⟩

/-- A look at a kind that is there. -/
theorem check_true (enough : last ≤ words.length) (h : firstKind words = kind) :
    ReadsWithin last (check kind) words true words :=
  ⟨.check_true h, .check kind enough⟩

/-- A look at a kind that is not there. -/
theorem check_false (enough : last ≤ words.length) (h : firstKind words ≠ kind) :
    ReadsWithin last (check kind) words false words :=
  ⟨.check_false h, .check kind enough⟩

/-- The first alternative is taken if it succeeds. -/
theorem firstOf_left (h : ReadsWithin last p words a rest) :
    ReadsWithin last (firstOf p q) words a rest := by
  refine ⟨.firstOf_left h.reads, fun good session faces fewer le notes => ?_⟩
  have tried := h.keeps.alternative good session faces fewer le notes
  obtain ⟨after, run, _⟩ := h.reads.alternative good session faces
  rw [run] at tried
  rw [Parser.firstOf, run]
  exact tried

/-- The second alternative is taken if the first one fails. -/
theorem firstOf_right (fails : Fails p words) (keeps : NotesWithin last p words)
    (h : ReadsWithin last q words a rest) : ReadsWithin last (firstOf p q) words a rest :=
  ⟨.firstOf_right fails h.reads, keeps.firstOf h.keeps fun _ _ faces _ _ run _ => fails.settles faces run⟩

/-- An optional part that is there is read. -/
theorem optional_some (h : ReadsWithin last p words a rest) :
    ReadsWithin last (optional p) words (some a) rest :=
  ⟨.optional_some h.reads, h.keeps.optional⟩

/-- An optional part that is not there is left out. -/
theorem optional_none (fails : Fails p words) (keeps : NotesWithin last p words) :
    ReadsWithin last (optional p) words none words :=
  ⟨.optional_none fails, keeps.optional⟩

/-- What needs no recovery is read. -/
theorem orRecover (sync : List TokenKind) (ifFailed : α) (h : ReadsWithin last p words a rest) :
    ReadsWithin last (orRecover p sync ifFailed) words a rest := by
  refine ⟨.orRecover sync ifFailed h.reads, h.keeps.orRecover sync ifFailed ?_⟩
  intro good session faces failure after run
  obtain ⟨after', run', _⟩ := h.reads good session faces
  rw [run] at run'
  cases run'

/-- A rule reads what its body reads. -/
theorem apply {value : rule.Result}
    (h : ReadsWithin last (body true (apply true allowance) rule) words value rest) :
    ReadsWithin last (Grammar.apply true (allowance + 1) rule) words value rest :=
  ⟨.apply h.reads, .apply h.keeps⟩

end ReadsWithin

namespace StallsWithin

variable {last : Nat} {p q : Parser α} {f : α → Parser β} {words middle : List Word} {a : α}
  {word : Word} {rule : Rule} {allowance : Nat}

/-- There is nothing to be read. -/
theorem fail (words : List Word) : StallsWithin last (fail : Parser α) words :=
  ⟨.fail words, .of_same fun _ => rfl⟩

/-- Something else was expected. -/
theorem failExpecting (enough : last ≤ words.length) (kinds : List TokenKind) :
    StallsWithin last (failExpecting kinds : Parser α) words :=
  ⟨.failExpecting kinds words, .failExpecting kinds enough⟩

/-- A sequence stalls where its first part does. -/
theorem bind_left (h : StallsWithin last p words) : StallsWithin last (p >>= f) words := by
  refine ⟨h.stalls.bind_left, h.keeps.bind_left fun good session faces => ?_⟩
  obtain ⟨failure, after, _, run, _, _⟩ := h.stalls good session faces
  exact ⟨failure, after, run⟩

/-- A sequence stalls where its rest does. -/
theorem bind_right (hp : ReadsWithin last p words a middle) (hf : StallsWithin last (f a) middle) :
    StallsWithin last (p >>= f) words :=
  ⟨.bind_right hp.reads hf.stalls, hp.keeps.bind hp.reads hf.keeps⟩

/-- What follows a look at the current token. -/
theorem current_bind {f : Token → Parser α}
    (h : ∀ token, token.word = words.headD endWord → StallsWithin last (f token) words) :
    StallsWithin last (current >>= f) words :=
  ⟨.current_bind fun token same => (h token same).stalls,
    .current_bind fun token same => (h token same).keeps⟩

/-- What follows a token. -/
theorem advance_bind {f : Token → Parser β}
    (h : ∀ token, token.word = word → StallsWithin last (f token) words) :
    StallsWithin last (advance >>= f) (word :: words) :=
  ⟨.advance_bind fun token same => (h token same).stalls,
    .advance_bind fun token same => (h token same).keeps⟩

/-- A choice stalls where both alternatives do. -/
theorem firstOf (fails : Fails p words) (keeps : NotesWithin last p words) (h : StallsWithin last q words) :
    StallsWithin last (firstOf p q) words :=
  ⟨.firstOf fails h.stalls, keeps.firstOf h.keeps fun _ _ faces _ _ run _ => fails.settles faces run⟩

/-- There is no recovery. -/
theorem orRecover (sync : List TokenKind) (ifFailed : α) (h : StallsWithin last p words) :
    StallsWithin last (orRecover p sync ifFailed) words := by
  refine ⟨h.stalls.orRecover sync ifFailed, h.keeps.orRecover sync ifFailed ?_⟩
  intro good session faces failure after run
  obtain ⟨_, _, _, run', _, hafter⟩ := h.stalls good session faces
  rw [run] at run'
  cases run'
  simp [Session.canRecover, hafter.strict]

/-- A rule stalls if its body does. -/
theorem apply (h : StallsWithin last (body true (apply true allowance) rule) words) :
    StallsWithin last (Grammar.apply true (allowance + 1) rule) words :=
  ⟨.apply h.stalls, .apply h.keeps⟩

end StallsWithin

namespace AbortsWithin

variable {last : Nat} {p q : Parser α} {f : α → Parser β} {words middle : List Word} {a : α}
  {word : Word} {rule : Rule} {allowance : Nat}

/-- A sequence ends the parse where its first part does. -/
theorem bind_left (h : AbortsWithin last p words) : AbortsWithin last (p >>= f) words := by
  refine ⟨h.aborts.bind_left, h.keeps.bind_left fun good session faces => ?_⟩
  obtain ⟨failure, after, run, _⟩ := h.aborts good session faces
  exact ⟨failure, after, run⟩

/-- A sequence ends the parse where its rest does. -/
theorem bind_right (hp : ReadsWithin last p words a middle) (hf : AbortsWithin last (f a) middle) :
    AbortsWithin last (p >>= f) words :=
  ⟨.bind_right hp.reads hf.aborts, hp.keeps.bind hp.reads hf.keeps⟩

/-- What follows a look at the current token. -/
theorem current_bind {f : Token → Parser β}
    (h : ∀ token, token.word = words.headD endWord → AbortsWithin last (f token) words) :
    AbortsWithin last (current >>= f) words :=
  ⟨.current_bind fun token same => (h token same).aborts,
    .current_bind fun token same => (h token same).keeps⟩

/-- What follows a token. -/
theorem advance_bind {f : Token → Parser β}
    (h : ∀ token, token.word = word → AbortsWithin last (f token) words) :
    AbortsWithin last (advance >>= f) (word :: words) :=
  ⟨.advance_bind fun token same => (h token same).aborts,
    .advance_bind fun token same => (h token same).keeps⟩

/-- A choice ends the parse where its first alternative does. -/
theorem firstOf_left (h : AbortsWithin last p words) : AbortsWithin last (firstOf p q) words := by
  refine ⟨.firstOf_left h.aborts, fun good session faces fewer le notes => ?_⟩
  have tried := h.keeps.alternative good session faces fewer le notes
  obtain ⟨failure, after, run, fatal⟩ := h.aborts good session.trying (faces.of_eq rfl rfl rfl rfl)
  rw [alternative_error run] at tried
  rw [Parser.firstOf, alternative_error run]
  simp only [fatal]
  exact tried

/-- A choice ends the parse where its second alternative does. -/
theorem firstOf_right (fails : Fails p words) (keeps : NotesWithin last p words)
    (h : AbortsWithin last q words) : AbortsWithin last (firstOf p q) words :=
  ⟨.firstOf_right fails h.aborts, keeps.firstOf h.keeps fun _ _ faces _ _ run _ => fails.settles faces run⟩

/-- An optional part ends the parse where it would without being optional. -/
theorem optional (h : AbortsWithin last p words) : AbortsWithin last (optional p) words :=
  ⟨h.aborts.optional, h.keeps.optional⟩

/-- There is no recovery from a limit. -/
theorem orRecover (sync : List TokenKind) (ifFailed : α) (h : AbortsWithin last p words) :
    AbortsWithin last (orRecover p sync ifFailed) words := by
  refine ⟨h.aborts.orRecover sync ifFailed, h.keeps.orRecover sync ifFailed ?_⟩
  intro good session faces failure after run
  obtain ⟨_, _, run', fatal⟩ := h.aborts good session faces
  rw [run] at run'
  cases run'
  simp [fatal]

/-- A rule without allowance ends the parse. -/
theorem apply_zero (rule : Rule) (words : List Word) :
    AbortsWithin last (Grammar.apply true 0 rule) words :=
  ⟨.apply_zero rule words, .apply_zero rule⟩

/-- A rule ends the parse where its body does. -/
theorem apply_succ (h : AbortsWithin last (body true (apply true allowance) rule) words) :
    AbortsWithin last (Grammar.apply true (allowance + 1) rule) words :=
  ⟨.apply_succ h.aborts, .apply h.keeps⟩

end AbortsWithin

end Adql
