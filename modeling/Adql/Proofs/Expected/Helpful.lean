import Adql.Proofs.Expected.Honest

/-!
# Helpful parsers

The ways to combine parsers keep `Helpful`: one lemma for each.  Where a part of a sequence has to be
there, what follows it is asked to be `Ready`, so that whatever is offered in the part can be completed.
A part behind a word stands in front of fewer words than the sequence, so it need be helpful for a
smaller size only.
-/

namespace Adql

open Adql.Parser Adql.Grammar

variable {α β σ : Type}

/-! ### Words -/

/-- What follows a choice follows each alternative. -/
theorem ite_bind {c : Prop} [Decidable c] (p q : Parser α) (f : α → Parser β) :
    (if c then p else q) >>= f = if c then p >>= f else q >>= f := by
  split <;> rfl

/-- To eat a word is to look for it and to move on. -/
theorem eat_bind_eq (kind : TokenKind) (f : Bool → Parser α) :
    eat kind >>= f =
      check kind >>= fun there => if there = true then advance >>= fun _ => f true else f false := by
  unfold eat
  simp only [bind_assoc, ite_bind, pure_bind]

/-- To expect a word is to look for it and to move on. -/
theorem expect_bind_eq (kind : TokenKind) (q : Parser α) :
    (expect kind >>= fun _ => q) =
      check kind >>= fun there => if there = true then advance >>= fun _ => q else fail := by
  unfold expect
  rw [bind_assoc]
  simp only [ite_bind]
  rfl

/-- The shortest name. -/
def nameWord : Word :=
  ⟨.identifier, "x"⟩

/-- The shortest name is written so. -/
theorem spelled_nameWord : nameWord.Spelled :=
  isName_letter "x" (by simp)

/-- The shortest name is read. -/
theorem reads_nameWord (behind : List Word) :
    Reads identifier (nameWord :: behind) (.regular "x") behind :=
  (Reads.check_true rfl).bind (.advance_bind fun token same => by
    rw [show token.lexeme = "x" from congrArg Word.lexeme same]
    exact .pure _ _)

/-- A delimited name. -/
def delimitedWord : Word :=
  ⟨.delimitedIdentifier, Text.quoted '"' "x"⟩

/-- A delimited name is written so. -/
theorem spelled_delimitedWord : delimitedWord.Spelled :=
  ⟨"x", nofun, rfl⟩

/-- A number is written so. -/
theorem spelled_one : (countWord 1).Spelled :=
  ⟨1, by decide, rfl⟩

section

variable {F G : Set TokenKind} {p q : Parser α} {f : Bool → Parser α} {kind : TokenKind}

/-- No end marker is written. -/
theorem Word.Spelled.noEnd (spelled : kind.word.Spelled) : kind ≠ .eof :=
  spelled.sound.kind_ne

/-- A word is offered if what comes behind it can be completed. -/
theorem Offers.advance_bind (h : Closes G F q) (spelled : kind.word.Spelled) :
    Offers F (advance >>= fun _ => q) [] kind := by
  obtain ⟨words, a, spelled', closing⟩ := h
  refine ⟨kind.word, words, a, rfl, List.forall_mem_cons.mpr ⟨spelled, spelled'⟩, fun behind follows => ?_⟩
  exact .advance_bind fun _ _ => (closing behind follows).2

namespace Closes

/-- What reads nothing in front of what follows. -/
theorem of_nothing {a : α} (h : ∀ behind, firstKind behind ∈ F → Reads p behind a behind) :
    Closes F F p :=
  ⟨[], a, List.forall_mem_nil _, fun behind follows => ⟨follows, h behind follows⟩⟩

/-- What reads the shortest name in front of what follows. -/
theorem of_name {a : α} (h : ∀ behind, firstKind behind ∈ F → Reads p (nameWord :: behind) a behind) :
    Closes {.identifier} F p :=
  ⟨[nameWord], a, List.forall_mem_singleton.mpr spelled_nameWord, fun behind follows =>
    ⟨rfl, h behind follows⟩⟩

/-- A word that may be eaten. -/
theorem eat_found (h : Closes G F (f true)) (spelled : kind.word.Spelled) :
    Closes {kind} F (eat kind >>= f) := by
  rw [eat_bind_eq]
  exact .check_found (.advance_bind h spelled) rfl

/-- A word that need not be eaten. -/
theorem eat_missed (h : Closes G F (f false)) (missing : kind ∉ G) :
    Closes G F (eat kind >>= f) := by
  rw [eat_bind_eq]
  exact .check_missed h missing

/-- A word that has to be there. -/
theorem expect_bind (h : Closes G F q) (spelled : kind.word.Spelled) :
    Closes {kind} F (expect kind >>= fun _ => q) := by
  rw [expect_bind_eq]
  exact .check_found (.advance_bind h spelled) rfl

/-- A reserved word that has to be there. -/
theorem expectWord_bind {keyword : Keyword} (h : Closes G F q) :
    Closes {.keyword keyword} F (expectWord keyword >>= fun _ => q) := by
  unfold expectWord
  rw [bind_assoc]
  exact expect_bind h rfl

/-- What stands behind a word may be missing. -/
theorem afterWord {keyword : Keyword} {default : α} (missing : .keyword keyword ∉ F) :
    Closes F F (afterWord keyword default p) :=
  eat_missed (.pure subset_rfl default) missing

/-- The value may be mapped. -/
theorem map {g : α → β} (h : Closes G F p) : Closes G F (g <$> p) := by
  rw [map_eq_pure_bind]
  exact h.bind fun a => .pure subset_rfl (g a)

/-- A parser in parentheses. -/
theorem inParentheses (h : Closes G {.rightParen} p) : Closes {.leftParen} F (inParentheses p) :=
  expect_bind (h.bind fun a => expect_bind (.pure (G := Set.univ) (Set.subset_univ F) a) rfl) rfl

/-- A failure that would be survived. -/
theorem orRecover {sync : List TokenKind} {ifFailed : α} (h : Closes G F p) :
    Closes G F (orRecover p sync ifFailed) := by
  obtain ⟨words, a, spelled, closing⟩ := h
  exact ⟨words, a, spelled, fun behind follows =>
    (closing behind follows).imp id (.orRecover sync ifFailed)⟩

/-- A rule. -/
theorem apply {rule : Rule} {allowance : Nat}
    (h : Closes G F (body true (apply true allowance) rule)) :
    Closes G F (Grammar.apply true (allowance + 1) rule) := by
  obtain ⟨words, a, spelled, closing⟩ := h
  exact ⟨words, a, spelled, fun behind follows => (closing behind follows).imp id .apply⟩

/-- A repetition that is done in front of what follows. -/
theorem iterate {step : σ → Parser (Step σ)} {state : σ} (ends : ∀ behind, firstKind behind ∈ F →
    Reads (step state) behind (.done state) behind) : Closes F F (iterate step state) :=
  of_nothing fun behind follows => (Repeats.refl state behind).iterate (ends behind follows)

/-- One item and no more. -/
theorem oneOrMore {separator : TokenKind} (h : Closes G F p) (missing : separator ∉ F) :
    Closes G F (oneOrMore separator p) := by
  refine h.bind fun first => bind (H := F) (.iterate fun behind follows => ?_)
    fun items => .pure subset_rfl _
  have other : firstKind behind ≠ separator := fun same => missing (same ▸ follows)
  exact (Reads.eat_false other).bind (.pure _ _)

/-- A name. -/
theorem identifier : Closes {.identifier} F identifier :=
  of_name fun behind _ => reads_nameWord behind

end Closes

/-! ### Helpful parsers -/

namespace Helpful

variable {size : Nat}

/-- What is helpful for a size is helpful for a smaller one. -/
theorem of_le {less : Nat} (h : Helpful size F p) (le : less ≤ size) : Helpful less F p :=
  ⟨h.beyond, fun front few => h.honest front (Nat.lt_of_lt_of_le few le)⟩

/-- What may follow may be restricted. -/
theorem mono (h : Helpful size G p) (sub : F ⊆ G) : Helpful size F p :=
  ⟨h.beyond, fun front few => (h.honest front few).imp fun _ honest => honest.mono sub⟩

/-- A value is yielded at once. -/
theorem pure (a : α) : Helpful size F (Pure.pure a) :=
  ⟨.pure a, fun front _ => ⟨_, .pure a front⟩⟩

/-- A parser that fails at once. -/
theorem fail : Helpful size F (fail : Parser α) :=
  ⟨.fail, fun front _ => ⟨_, .fail front⟩⟩

/-- Parsers that run alike are helpful alike. -/
theorem congr (h : Helpful size F q) (beyond : Beyond p)
    (run : ∀ good words session, session.Faces words .adql good → p session = q session) :
    Helpful size F p :=
  ⟨beyond, fun front few => (h.honest front few).imp fun _ honest =>
    honest.congr fun good behind session faces => run good (front ++ behind) session faces⟩

/-- A sequence, if its rest is ready for what may come in between. -/
theorem bind {f : α → Parser β} (hp : Helpful size G p) (hf : ∀ a, Ready size G F (f a)) :
    Helpful size F (p >>= f) := by
  refine ⟨hp.beyond.bind fun a => (hf a).beyond, fun front few => ?_⟩
  obtain ⟨outcome, honest⟩ := hp.honest front few
  match outcome with
  | none => exact ⟨none, honest.bind_stalls (fun a => (hf a).closes) fun a => (hf a).beyond⟩
  | some (a, rest) =>
    have fewer := honest.shorter a rest rfl
    obtain ⟨outcome, honest'⟩ := (hf a).honest rest (by omega)
    exact ⟨outcome, honest.bind (fun a => (hf a).closes) (fun a => (hf a).beyond) honest'
      fun _ kind never => never.elim⟩

/-- The value may be mapped. -/
theorem map {g : α → β} (h : Helpful size F p) : Helpful size F (g <$> p) := by
  rw [map_eq_pure_bind]
  exact h.bind fun a => ⟨.pure (g a), .pure subset_rfl (g a)⟩

/-- A look for a word. -/
theorem check_bind (found : ∀ word front, word.kind = kind → front.length + 1 < size →
      ∃ outcome, Honest F p (word :: front) outcome) (beyond : Beyond p)
    (offers : Offers F p [] kind) (takes : Takes kind p) (missed : Helpful size F q) :
    Helpful size F (check kind >>= fun there => if there = true then p else q) := by
  refine ⟨(Beyond.check kind).bind fun there => .ite beyond missed.beyond, fun front few => ?_⟩
  cases front with
  | nil =>
    obtain ⟨outcome, honest⟩ := missed.honest [] few
    exact ⟨outcome, honest.check_nil offers takes⟩
  | cons word front =>
    by_cases there : word.kind = kind
    · obtain ⟨outcome, honest⟩ := found word front there few
      exact ⟨outcome, honest.check_found there⟩
    · obtain ⟨outcome, honest⟩ := missed.honest (word :: front) few
      exact ⟨outcome, honest.check_missed there⟩

/-- A word that may be eaten. -/
theorem eat_bind (spelled : kind.word.Spelled) (found : Ready (size - 1) G F (f true))
    (missed : Helpful size F (f false)) : Helpful size F (eat kind >>= f) := by
  rw [eat_bind_eq]
  refine check_bind (fun word front _ few => ?_) (Beyond.advance.bind fun _ => found.beyond)
    (.advance_bind found.closes spelled) (.advance_bind spelled.noEnd fun _ => found.beyond) missed
  obtain ⟨outcome, honest⟩ := found.honest front (by omega)
  exact ⟨outcome, honest.advance_bind⟩

/-- A word that has to be there. -/
theorem expect_bind (spelled : kind.word.Spelled) (h : Ready (size - 1) G F q) :
    Helpful size F (expect kind >>= fun _ => q) := by
  rw [expect_bind_eq]
  refine check_bind (fun word front _ few => ?_) (Beyond.advance.bind fun _ => h.beyond)
    (.advance_bind h.closes spelled) (.advance_bind spelled.noEnd fun _ => h.beyond) .fail
  obtain ⟨outcome, honest⟩ := h.honest front (by omega)
  exact ⟨outcome, honest.advance_bind⟩

/-- A reserved word that has to be there. -/
theorem expectWord_bind {keyword : Keyword} (h : Ready (size - 1) G F q) :
    Helpful size F (expectWord keyword >>= fun _ => q) := by
  unfold expectWord
  rw [bind_assoc]
  exact expect_bind rfl h

/-- A word that tells the value. -/
theorem word_value {g : Token → α} {word : Word} (spelled : word.Spelled) (value : Word → α)
    (told : ∀ token, g token = value token.word) (missed : Helpful size F q) :
    Helpful size F (check word.kind >>= fun there =>
      if there = true then advance >>= fun token => Pure.pure (g token) else q) := by
  have same {word : Word} (token : Token) (same : token.word = word) : g token = value word :=
    same ▸ told token
  refine check_bind (fun word front _ _ => ⟨_, .advance_pure same front⟩)
    (Beyond.advance.bind fun _ => .pure _) ?_
    (.advance_bind spelled.sound.kind_ne fun _ => .pure _) missed
  refine ⟨word, [], value word, rfl, List.forall_mem_singleton.mpr spelled, fun behind _ => ?_⟩
  exact .advance_bind fun token told => same token told ▸ .pure _ behind

/-- What stands behind a word. -/
theorem afterWord {keyword : Keyword} {default : α} (h : Ready (size - 1) G F p) :
    Helpful size F (afterWord keyword default p) :=
  eat_bind rfl h (.pure default)

/-- Where there is no recovery, a failure that would be survived. -/
theorem orRecover {sync : List TokenKind} {ifFailed : α} (h : Helpful size F p)
    (moves : moving.rel Eq p p) : Helpful size F (orRecover p sync ifFailed) := by
  refine h.congr (.orRecover h.beyond sync ifFailed) fun good words session faces => ?_
  unfold Parser.orRecover
  cases run : p session with
  | ok a after => rfl
  | error failure after =>
    have follows := (moves.1 session).follows_error run
    have strict : after.canRecover = false := by
      simp [Session.canRecover, follows.settings, faces.strict]
    change EStateM.bind (recoverFrom failure sync) _ after = _
    rw [EStateM.bind, recoverFrom_run, strict, Bool.not_false, Bool.or_true, if_pos rfl]

/-- A repetition of helpful steps. -/
theorem iterate {step : σ → Parser (Step σ)}
    (same : ∀ state, nearby.rel Eq (step state) (step state))
    (shorter : ∀ state words state' rest, Reads (step state) words (.more state') rest →
      rest.length < words.length)
    (sub : F ⊆ G) (closes : ∀ state, Closes G F (iterate step state))
    (steps : ∀ state, Helpful size G (step state)) (state : σ) :
    Helpful size F (iterate step state) := by
  have never (state : σ) : ∀ kind ∈ (∅ : Set TokenKind), Offers F (Parser.iterate step state) [] kind :=
    fun _ found => absurd found (Set.notMem_empty _)
  refine ⟨.iterate (fun state => (steps state).beyond) state, fun front few => ?_⟩
  refine Honest.iterate same shorter (fun state => (steps state).beyond) sub closes never
    (fun state front few => ?_) front few state
  obtain ⟨outcome, honest⟩ := (steps state).honest front few
  match outcome with
  | none => exact .inr ⟨none, honest⟩
  | some (.more state', rest) => exact .inr ⟨some (state', rest), honest⟩
  | some (.done final, rest) => exact .inl ⟨final, rest, honest⟩

/-- A rule with a helpful body. -/
theorem apply {rule : Rule} {allowance : Nat}
    (h : Helpful size F (body true (apply true allowance) rule)) :
    Helpful size F (Grammar.apply true (allowance + 1) rule) :=
  ⟨.apply h.beyond, fun front few => (h.honest front few).imp fun _ honest => honest.apply⟩

/-- A choice whose first alternative is a rule. -/
theorem firstOf {rule : Rule} {allowance : Nat} {q : Parser rule.Result}
    (named : rule.name?.isSome = true) (definite : Definite (Grammar.apply true allowance rule))
    (hp : Helpful size F (Grammar.apply true allowance rule)) (hq : Helpful size F q) :
    Helpful size F (firstOf (Grammar.apply true allowance rule) q) := by
  refine ⟨hp.beyond.firstOf hq.beyond, fun front few => ?_⟩
  obtain ⟨outcome, honest⟩ := hp.honest front few
  match outcome with
  | some (a, rest) => exact ⟨_, honest.firstOf_left definite⟩
  | none =>
    obtain ⟨outcome, honest'⟩ := hq.honest front few
    exact ⟨outcome, honest.firstOf_right named honest'⟩

/-- A rule that may be left out. -/
theorem optional {rule : Rule} {allowance : Nat} (named : rule.name?.isSome = true)
    (definite : Definite (Grammar.apply true allowance rule))
    (h : Helpful size F (Grammar.apply true allowance rule)) :
    Helpful size F (optional (Grammar.apply true allowance rule)) := by
  refine ⟨h.beyond.optional, fun front few => ?_⟩
  obtain ⟨outcome, honest⟩ := h.honest front few
  match outcome with
  | some (a, rest) => exact ⟨_, honest.optional_some definite⟩
  | none => exact ⟨_, honest.optional_none named⟩

end Helpful

/-! ### Parsers that something may stand in front of -/

namespace Ready

variable {size : Nat} {F' H : Set TokenKind}

/-- What is ready for a size is ready for a smaller one. -/
theorem of_le {less : Nat} (h : Ready size G F p) (le : less ≤ size) : Ready less G F p :=
  ⟨h.toHelpful.of_le le, h.closes⟩

/-- More kinds may come first, and fewer may follow. -/
theorem mono (h : Ready size G F p) (first : G ⊆ H) (follows : F' ⊆ F) : Ready size H F' p :=
  ⟨h.toHelpful.mono follows, h.closes.mono first follows⟩

/-- A value is yielded at once. -/
theorem pure (sub : F ⊆ G) (a : α) : Ready size G F (Pure.pure a) :=
  ⟨.pure a, .pure sub a⟩

/-- A sequence of parsers that are ready. -/
theorem bind {f : α → Parser β} (hp : Ready size G H p) (hf : ∀ a, Ready size H F (f a)) :
    Ready size G F (p >>= f) :=
  ⟨hp.toHelpful.bind hf, hp.closes.bind fun a => (hf a).closes⟩

/-- The value may be mapped. -/
theorem map {g : α → β} (h : Ready size G F p) : Ready size G F (g <$> p) :=
  ⟨h.toHelpful.map, h.closes.map⟩

/-- A word that may be eaten. -/
theorem eat_found (spelled : kind.word.Spelled) (found : Ready (size - 1) G F (f true))
    (missed : Helpful size F (f false)) : Ready size {kind} F (eat kind >>= f) :=
  ⟨.eat_bind spelled found missed, .eat_found found.closes spelled⟩

/-- A word that need not be eaten. -/
theorem eat_missed (spelled : kind.word.Spelled) (found : Ready (size - 1) H F (f true))
    (missed : Ready size G F (f false)) (missing : kind ∉ G) : Ready size G F (eat kind >>= f) :=
  ⟨.eat_bind spelled found missed.toHelpful, .eat_missed missed.closes missing⟩

/-- A word that has to be there. -/
theorem expect_bind (spelled : kind.word.Spelled) (h : Ready (size - 1) G F q) :
    Ready size {kind} F (expect kind >>= fun _ => q) :=
  ⟨.expect_bind spelled h, .expect_bind h.closes spelled⟩

/-- A reserved word that has to be there. -/
theorem expectWord_bind {keyword : Keyword} (h : Ready (size - 1) G F q) :
    Ready size {.keyword keyword} F (expectWord keyword >>= fun _ => q) :=
  ⟨.expectWord_bind h, .expectWord_bind h.closes⟩

/-- What stands behind a word may be missing. -/
theorem afterWord {keyword : Keyword} {default : α} (h : Ready (size - 1) G F p)
    (missing : .keyword keyword ∉ F) : Ready size F F (afterWord keyword default p) :=
  ⟨.afterWord h, .afterWord missing⟩

/-- A parser in parentheses. -/
theorem inParentheses (h : Ready (size - 1) G {.rightParen} p) :
    Ready size {.leftParen} F (inParentheses p) :=
  expect_bind rfl (h.bind fun a => expect_bind rfl (pure (G := Set.univ) (Set.subset_univ F) a))

/-- Where there is no recovery, a failure that would be survived. -/
theorem orRecover {sync : List TokenKind} {ifFailed : α} (h : Ready size G F p)
    (moves : moving.rel Eq p p) : Ready size G F (orRecover p sync ifFailed) :=
  ⟨h.toHelpful.orRecover moves, h.closes.orRecover⟩

/-- A rule that may be left out. -/
theorem optional {rule : Rule} {allowance : Nat} (named : rule.name?.isSome = true)
    (definite : Definite (Grammar.apply true allowance rule))
    (h : Helpful size F (Grammar.apply true allowance rule))
    (missing : ∀ behind, firstKind behind ∈ F → Stalls (Grammar.apply true allowance rule) behind) :
    Ready size F F (optional (Grammar.apply true allowance rule)) :=
  ⟨h.optional named definite, .of_nothing fun behind follows =>
    .optional_none ((missing behind follows).fails named)⟩

/-- A repetition that is done in front of what follows. -/
theorem iterate {step : σ → Parser (Step σ)}
    (same : ∀ state, nearby.rel Eq (step state) (step state))
    (shorter : ∀ state words state' rest, Reads (step state) words (.more state') rest →
      rest.length < words.length)
    (ends : ∀ state behind, firstKind behind ∈ F → Reads (step state) behind (.done state) behind)
    (steps : ∀ state, Helpful size F (step state)) (state : σ) :
    Ready size F F (iterate step state) :=
  ⟨.iterate same shorter subset_rfl (fun state => .iterate (ends state)) steps state,
    .iterate (ends state)⟩

/-- An item behind a separator is read from fewer words. -/
theorem listStep_shorter {separator : TokenKind} {item : Parser α} (noEnd : separator ≠ .eof)
    (same : nearby.rel Eq item item) (moves : moving.rel Eq item item) {items items' : Array α}
    {words rest : List Word} (reads : Reads (listStep separator item items) words (.more items') rest) :
    rest.length < words.length := by
  have steps : Ensures (listStep separator item items) words
      (fun next rest => ∀ items', next = .more items' → rest.length < words.length)
      fun _ => True := by
    refine .eat_bind noEnd (fun word inner split _ => ?_) fun _ => .pure fun _ more => nomatch more
    refine ((Ensures.of_nearby same inner).length_le moves).bind fun _ rest fewer => .pure fun _ _ => ?_
    subst split
    exact Nat.lt_succ_of_le fewer.2
  exact steps.of_reads reads (Faced.any _) items' rfl

/-- Items with separators between them. -/
theorem oneOrMore {separator : TokenKind} {item : Parser α} (spelled : separator.word.Spelled)
    (same : nearby.rel Eq item item) (moves : moving.rel Eq item item)
    (h : Ready size G F item) (missing : separator ∉ F) :
    Ready size G F (oneOrMore separator item) := by
  have step (items : Array α) : Helpful size F (listStep separator item items) :=
    .eat_bind spelled ((h.of_le (Nat.sub_le size 1)).bind fun _ => .pure subset_rfl _) (.pure _)
  have steps (items : Array α) : nearby.rel Eq (listStep separator item items)
      (listStep separator item items) :=
    nearby.rel_seq (nearby.rel_eat _) fun _ =>
      nearby.rel_ite _ (nearby.rel_seq same fun _ => nearby.rel_value _) (nearby.rel_value _)
  refine h.bind fun first => bind (H := F) (iterate steps
    (fun _ _ _ _ => listStep_shorter spelled.noEnd same moves) (fun items behind follows => ?_) step _)
    fun items => .pure subset_rfl _
  have other : firstKind behind ≠ separator := fun same => missing (same ▸ follows)
  exact (Reads.eat_false other).bind (.pure _ _)

/-- A name. -/
theorem identifier : Ready size {.identifier} F identifier :=
  ⟨.word_value spelled_nameWord (fun word => .regular word.lexeme) (fun _ => rfl) <|
    .word_value spelled_delimitedWord (fun word => .delimited (Text.unquoted '"' word.lexeme))
      (fun _ => rfl) .fail,
    .identifier⟩

end Ready

end

end Adql
