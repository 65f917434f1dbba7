import Adql.Proofs.RoundTrip.Reading

/-!
# What a successful run ensures

`Ensures parser words condition` says that wherever a parser succeeds in front of the words, its
value and the words that it leaves meet the condition.  It takes apart what a text was read as, the
way `Reads` puts a text together.
-/

namespace Adql

open Adql.Parser Adql.Grammar

variable {α β σ : Type}

/-- If the parser succeeds in front of the words, which are good, its value and the rest meet the
condition. -/
def Ensures (parser : Parser α) (words : List Word) (condition : α → List Word → Prop)
    (good : Word → Prop := Word.Sound) : Prop :=
  ∀ (session after : Session) (value : α), session.Faces words .adql good →
    parser session = .ok value after → ∃ rest, after.Faces rest .adql good ∧ condition value rest

/-- Some run of the parser in front of the words fails, though not for good. -/
def Stumbles (parser : Parser α) (words : List Word) (good : Word → Prop := Word.Sound) : Prop :=
  ∃ (session after : Session) (failure : Failure), session.Faces words .adql good ∧
    parser session = .error failure after ∧ failure.fatal = false

/-- What a step of a repetition says meets one condition if there is more to come and another one
if the repetition is done. -/
def AfterStep (more done : σ → List Word → Prop) : Step σ → List Word → Prop
  | .more state, rest => more state rest
  | .done state, rest => done state rest

/-- What is read is all that can come of a run. -/
theorem Reads.ensures {p : Parser α} {words rest : List Word} {a : α}
    {Q : α → List Word → Prop} {good : Word → Prop} (h : Reads p words a rest) (hQ : Q a rest) :
    Ensures p words Q good := by
  intro session after value faces hrun
  obtain ⟨after', hrun', hafter⟩ := h _ session faces
  rw [hrun] at hrun'
  cases hrun'
  exact ⟨rest, hafter, hQ⟩

namespace Ensures

variable {p q : Parser α} {f : α → Parser β} {words : List Word} {P Q : α → List Word → Prop}
  {R : β → List Word → Prop} {kind : TokenKind} {keyword : Keyword} {good : Word → Prop}

/-- The condition may be weakened. -/
theorem mono (h : Ensures p words P good) (hPQ : ∀ a rest, P a rest → Q a rest) :
    Ensures p words Q good := by
  intro session after value faces hrun
  obtain ⟨rest, hafter, hvalue⟩ := h session after value faces hrun
  exact ⟨rest, hafter, hPQ value rest hvalue⟩

/-- Two conditions may be ensured one by one. -/
theorem and (hP : Ensures p words P good) (hQ : Ensures p words Q good) :
    Ensures p words (fun a rest => P a rest ∧ Q a rest) good := by
  intro session after value faces hrun
  obtain ⟨rest, hafter, hvalue⟩ := hP session after value faces hrun
  obtain ⟨rest', hafter', hvalue'⟩ := hQ session after value faces hrun
  have same : rest' = rest := by rw [← hafter'.words_eq, hafter.words_eq]
  exact ⟨rest, hafter, hvalue, same ▸ hvalue'⟩

/-- There are no more words to come later. -/
theorem length_le (moves : moving.rel Eq p p) (h : Ensures p words P good) :
    Ensures p words (fun a rest => P a rest ∧ rest.length ≤ words.length) good := by
  intro session after value faces hrun
  obtain ⟨rest, hafter, hvalue⟩ := h session after value faces hrun
  have fewer := ((moves.1 session).follows_ok hrun).remaining_le
  rw [faces.remaining, hafter.remaining] at fewer
  exact ⟨rest, hafter, hvalue, fewer⟩

/-! ### Sequences -/

/-- A value meets what it meets. -/
theorem pure {a : α} (h : Q a words) : Ensures (pure a) words Q good :=
  (Reads.pure a words).ensures h

/-- A sequence ensures what its rest ensures behind its first part. -/
theorem bind (hp : Ensures p words P good) (hf : ∀ a rest, P a rest → Ensures (f a) rest R good) :
    Ensures (p >>= f) words R good := by
  intro session after value faces hrun
  obtain ⟨a, between, hfirst, hrest⟩ := bind_run_ok.mp hrun
  obtain ⟨middle, hbetween, ha⟩ := hp session between a faces hfirst
  exact hf a middle ha between after value hbetween hrest

/-- Behind a part of which it is known what it reads. -/
theorem reads_bind {a : α} {middle : List Word} (hp : Reads p words a middle)
    (hf : Ensures (f a) middle R good) : Ensures (p >>= f) words R good :=
  bind (P := fun b rest => b = a ∧ rest = middle) (hp.ensures ⟨rfl, rfl⟩)
    fun _ _ ⟨hvalue, hrest⟩ => hvalue ▸ hrest ▸ hf

/-- The value of a parser may be mapped. -/
theorem map {g : α → β} (hp : Ensures p words (fun a rest => R (g a) rest) good) :
    Ensures (g <$> p) words R good := by
  rw [map_eq_pure_bind]
  exact hp.bind fun a rest ha => pure ha

/-- A choice by a condition ensures what its parts ensure. -/
theorem ite {c : Prop} [Decidable c] (hp : c → Ensures p words Q good) (hq : ¬c → Ensures q words Q good) :
    Ensures (if c then p else q) words Q good := by
  by_cases h : c
  · rw [if_pos h]
    exact hp h
  · rw [if_neg h]
    exact hq h

/-! ### Tokens -/

/-- Nothing succeeds where there is nothing to be read. -/
theorem fail : Ensures (fail : Parser α) words Q good := by
  intro session after value _ hrun
  cases hrun

/-- Nothing succeeds where something else was expected. -/
theorem failExpecting {kinds : List TokenKind} :
    Ensures (failExpecting kinds : Parser α) words Q good := by
  intro session after value _ hrun
  cases hrun

/-- The current token has the kind of the first word, and is the token of the first word. -/
theorem current_bind {f : Token → Parser β}
    (h : ∀ token, token.kind = firstKind words →
      (∀ word rest, words = word :: rest → token.word = word ∧ good word) →
      Ensures (f token) words R good) :
    Ensures (current >>= f) words R good := by
  intro session after value faces hrun
  refine h session.current faces.current_kind (fun word rest split => ?_) session after value faces
    hrun
  subst split
  exact ⟨faces.current_word, faces.sound_head⟩

/-- Behind a token the first word is gone. -/
theorem advance_bind {f : Token → Parser β} {word : Word} {rest : List Word}
    (h : ∀ token, token.word = word → good word → Ensures (f token) rest R good) :
    Ensures (advance >>= f) (word :: rest) R good :=
  fun session after value faces hrun =>
    h session.current faces.current_word faces.sound_head _ after value faces.advance hrun

/-- Behind a token, whichever it is, the first word is gone. -/
theorem advance_tail_bind {f : Token → Parser β}
    (h : ∀ token, Ensures (f token) words.tail R good) : Ensures (advance >>= f) words R good :=
  fun session after value faces hrun =>
    h session.current _ after value faces.advance_tail hrun

/-- A kind that is looked for is there or not. -/
theorem check_ite (hkind : kind ≠ .eof)
    (found : ∀ word rest, words = word :: rest → word.kind = kind → Ensures p words Q good)
    (missed : firstKind words ≠ kind → Ensures q words Q good) :
    Ensures (check kind >>= fun there => if there = true then p else q) words Q good := by
  by_cases h : firstKind words = kind
  · obtain ⟨word, rest, split, same⟩ := exists_cons_of_firstKind hkind h
    exact reads_bind (.check_true h) (found word rest split same)
  · exact reads_bind (.check_false h) (missed h)

/-- A word that may be eaten is there or not. -/
theorem eat_bind {f : Bool → Parser α} (hkind : kind ≠ .eof)
    (found : ∀ word rest, words = word :: rest → word.kind = kind → Ensures (f true) rest Q good)
    (missed : firstKind words ≠ kind → Ensures (f false) words Q good) :
    Ensures (eat kind >>= f) words Q good := by
  by_cases h : firstKind words = kind
  · obtain ⟨word, rest, rfl, same⟩ := exists_cons_of_firstKind hkind h
    exact reads_bind (.eat_true same) (found word rest rfl same)
  · exact reads_bind (.eat_false h) (missed h)

/-- A reserved word that may be eaten is there or not. -/
theorem eatWord_bind {f : Bool → Parser α}
    (found : ∀ word rest, words = word :: rest → word.kind = .keyword keyword →
      Ensures (f true) rest Q good)
    (missed : firstKind words ≠ .keyword keyword → Ensures (f false) words Q good) :
    Ensures (eatWord keyword >>= f) words Q good :=
  eat_bind nofun found missed

/-- A word that has to be there is there. -/
theorem expect_bind {q : Parser β} (hkind : kind ≠ .eof)
    (h : ∀ word rest, words = word :: rest → word.kind = kind → Ensures q rest R good) :
    Ensures (expect kind >>= fun _ => q) words R good := by
  unfold expect
  rw [bind_assoc]
  by_cases there : firstKind words = kind
  · obtain ⟨word, rest, rfl, same⟩ := exists_cons_of_firstKind hkind there
    exact reads_bind (.check_true there) (advance_bind fun _ _ _ => h word rest rfl same)
  · exact reads_bind (.check_false there) fail

/-- A reserved word that has to be there is there. -/
theorem expectWord_bind {q : Parser β}
    (h : ∀ word rest, words = word :: rest → word.kind = .keyword keyword → Ensures q rest R good) :
    Ensures (expectWord keyword >>= fun _ => q) words R good := by
  unfold expectWord
  rw [bind_assoc]
  exact expect_bind nofun h

/-- What stands behind a word is there if the word is. -/
theorem afterWord {default : α}
    (found : ∀ word rest, words = word :: rest → word.kind = .keyword keyword →
      Ensures p rest Q good)
    (missed : firstKind words ≠ .keyword keyword → Q default words) :
    Ensures (afterWord keyword default p) words Q good :=
  eatWord_bind found fun h => pure (missed h)

/-! ### Alternatives -/

/-- What is tried ensures the same. -/
theorem speculate (h : Ensures p words Q good) : Ensures (speculate p) words Q good := by
  intro session after value faces hrun
  cases hresult : p session.trying with
  | error failure after => rw [speculate_error hresult] at hrun; cases hrun
  | ok a between =>
    rw [speculate_ok hresult] at hrun
    cases hrun
    have trying : session.trying.Faces words .adql good := faces.of_eq rfl rfl rfl rfl
    obtain ⟨rest, hafter, hvalue⟩ := h session.trying between value trying hresult
    exact ⟨rest, hafter.of_eq rfl rfl rfl rfl, hvalue⟩

/-- An alternative ensures the same. -/
theorem alternative (h : Ensures p words Q good) : Ensures (alternative p) words Q good := by
  intro session after value faces hrun
  obtain ⟨a, between, hfirst, hrest⟩ := bind_run_ok.mp hrun
  obtain ⟨rest, hbetween, hvalue⟩ := h.speculate session between a faces hfirst
  cases hrest
  exact ⟨rest, hbetween.dropNotesAhead, hvalue⟩

/-- A choice ensures what the first alternative ensures, or, where that one fails, what the second
one ensures. -/
theorem firstOf (hp : Ensures p words Q good) (settles : Stumbles p words good → Fails p words)
    (hq : Fails p words → Ensures q words Q good) : Ensures (firstOf p q) words Q good := by
  intro session after value faces hrun
  have trying : session.trying.Faces words .adql good := faces.of_eq rfl rfl rfl rfl
  cases hresult : p session.trying with
  | ok a between =>
    refine hp.alternative session after value faces ?_
    rw [Parser.firstOf, alternative_ok hresult] at hrun
    rw [alternative_ok hresult, ← hrun]
  | error failure between =>
    rw [Parser.firstOf, alternative_error hresult] at hrun
    dsimp only at hrun
    by_cases alive : failure.fatal = true
    · rw [if_pos alive] at hrun
      cases hrun
    · rw [if_neg alive] at hrun
      have fails := settles ⟨_, _, failure, trying, hresult, Bool.eq_false_iff.mpr alive⟩
      obtain ⟨_, _, hfail, _, hbetween⟩ := fails _ _ trying
      rw [hresult] at hfail
      cases hfail
      have settled : between.settled.Faces words .adql good := hbetween.of_eq rfl rfl rfl rfl
      exact (hq fails).alternative between.settled after value settled hrun

/-- An optional part is there, or it fails. -/
theorem optional {Q : Option α → List Word → Prop}
    (hp : Ensures p words (fun a rest => Q (some a) rest) good)
    (settles : Stumbles p words good → Fails p words) (missed : Fails p words → Q none words) :
    Ensures (optional p) words Q good := by
  intro session after value faces hrun
  have trying : session.trying.Faces words .adql good := faces.of_eq rfl rfl rfl rfl
  cases hresult : p session.trying with
  | ok a between =>
    rw [Parser.optional, speculate_ok hresult] at hrun
    cases hrun
    obtain ⟨rest, hafter, hvalue⟩ := hp _ _ _ trying hresult
    exact ⟨rest, hafter.of_eq rfl rfl rfl rfl, hvalue⟩
  | error failure between =>
    rw [Parser.optional, speculate_error hresult] at hrun
    dsimp only at hrun
    by_cases alive : failure.fatal = true
    · rw [if_pos alive] at hrun
      cases hrun
    · rw [if_neg alive] at hrun
      cases hrun
      have fails := settles ⟨_, _, failure, trying, hresult, Bool.eq_false_iff.mpr alive⟩
      obtain ⟨_, _, hfail, _, hbetween⟩ := fails _ _ trying
      rw [hresult] at hfail
      cases hfail
      exact ⟨words, hbetween.of_eq rfl rfl rfl rfl, missed fails⟩

/-- Where there is no recovery, a parser whose failures would be survived ensures the same. -/
theorem orRecover {sync : List TokenKind} {ifFailed : α} (h : Ensures p words Q good)
    (moves : moving.rel Eq p p) : Ensures (orRecover p sync ifFailed) words Q good := by
  intro session after value faces hrun
  cases hresult : p session with
  | ok a between =>
    rw [Parser.orRecover, hresult] at hrun
    cases hrun
    exact h session after value faces hresult
  | error failure between =>
    have follows := (moves.1 session).follows_error hresult
    have strict : between.canRecover = false := by
      simp [Session.canRecover, follows.settings, faces.strict]
    rw [Parser.orRecover, hresult] at hrun
    obtain ⟨_, _, hrecover, _⟩ := bind_run_ok.mp hrun
    rw [recoverFrom_run, strict] at hrecover
    simp at hrecover

/-! ### Repetition -/

section

variable {step : σ → Parser (Step σ)} {start : σ} {I D : σ → List Word → Prop}

/-- A bounded repetition keeps its invariant, and is done before the bound is reached. -/
theorem repeatAtMost
    (h : ∀ state words, I state words → Ensures (step state) words
      (AfterStep (fun state' rest => I state' rest ∧ rest.length < words.length) D) good)
    (count : Nat) (hstart : I start words) (enough : words.length < count) :
    Ensures (repeatAtMost step count start) words D good := by
  induction count generalizing start words with
  | zero => omega
  | succ count ih =>
    refine (h start words hstart).bind fun next rest hnext => ?_
    cases next with
    | more state => exact ih hnext.1 (by have := hnext.2; omega)
    | done state => exact pure hnext

/-- A repetition keeps its invariant until it is done, if each step leaves fewer words. -/
theorem iterate (hstart : I start words)
    (h : ∀ state words, I state words → Ensures (step state) words
      (AfterStep (fun state' rest => I state' rest ∧ rest.length < words.length) D) good) :
    Ensures (iterate step start) words D good :=
  reads_bind (.remaining words) (repeatAtMost h _ hstart (Nat.lt_succ_self _))

end

section

variable {item : Parser α}

/-- What holds of each item holds of one or more items. -/
theorem oneOrMore {P : α → Prop} (separator : TokenKind) (hkind : separator ≠ .eof)
    (moves : moving.rel Eq item item) (h : ∀ words, Ensures item words (fun a _ => P a) good)
    (words : List Word) :
    Ensures (oneOrMore separator item) words (fun items _ => items ≠ [] ∧ ∀ a ∈ items, P a) good := by
  refine (h words).bind fun first middle hfirst => ?_
  refine bind (P := fun items _ => items.toList ≠ [] ∧ ∀ a ∈ items.toList, P a) ?_
    fun items rest held => .pure held
  refine iterate (I := fun items _ => items.toList ≠ [] ∧ ∀ a ∈ items.toList, P a) ?_ ?_
  · exact ⟨List.cons_ne_nil _ _, List.forall_mem_singleton.mpr hfirst⟩
  intro items words held
  refine .eat_bind hkind (fun word inner split _ => ?_) fun _ => .pure held
  subst split
  refine ((h inner).length_le moves).bind fun a rest ⟨ha, shorter⟩ => .pure ⟨⟨?_, ?_⟩, ?_⟩
  · simp
  · rw [Array.toList_push]
    exact List.forall_mem_append.mpr ⟨held.2, List.forall_mem_singleton.mpr ha⟩
  · exact Nat.lt_succ_of_le shorter

/-- One or more items are not none. -/
theorem oneOrMore_ne_nil (separator : TokenKind) (hkind : separator ≠ .eof)
    (moves : moving.rel Eq item item) (anywhere : ∀ words, Ensures item words (fun _ _ => True) good)
    (words : List Word) :
    Ensures (Parser.oneOrMore separator item) words (fun items _ => items ≠ []) good :=
  (oneOrMore separator hkind moves anywhere words).mono fun _ _ some => some.1

end

/-! ### Rules -/

section

variable {rule : Rule} {condition : rule.Result → List Word → Prop} {allowance : Nat}

/-- A rule without allowance does not succeed. -/
theorem apply_zero : Ensures (apply true 0 rule) words condition good := by
  refine reads_bind (.countRule rule words) fun session after value _ hrun => ?_
  rw [refuseDepth_run] at hrun
  cases hrun

/-- A rule ensures what its body ensures. -/
theorem apply_succ (h : Ensures (body true (apply true allowance) rule) words condition good) :
    Ensures (apply true (allowance + 1) rule) words condition good := by
  refine reads_bind (.countRule rule words) fun session after value faces hrun => ?_
  cases hresult : body true (Grammar.apply true allowance) rule (inside rule session) with
  | error failure between => rw [nested, hresult] at hrun; cases hrun
  | ok a between =>
    rw [nested, hresult] at hrun
    cases hrun
    have within : (inside rule session).Faces words .adql good := faces.of_eq rfl rfl rfl rfl
    obtain ⟨rest, hafter, hvalue⟩ := h (inside rule session) between value within hresult
    exact ⟨rest, hafter.of_eq rfl rfl rfl rfl, hvalue⟩

/-- A rule ensures what its body ensures, if there is an allowance for the body. -/
theorem apply (h : ∀ less, allowance = less + 1 →
    Ensures (body true (Grammar.apply true less) rule) words condition good) :
    Ensures (Grammar.apply true allowance rule) words condition good := by
  cases allowance with
  | zero => exact apply_zero
  | succ less => exact apply_succ (h less rfl)

end

end Ensures

end Adql
