import Adql.Proofs.Grammar.Rejection

/-!
# The look ahead at parentheses

What starts with a parenthesis is an expression or a query.  The grammar looks at the tokens behind
the parentheses to tell which; without this look ahead it would try an expression and then a query
every time.  Both ways read the same: where the look ahead leaves out a try, this try yields no value
(`Adql.Proofs.Grammar.Rejection`).

Two runs, with and without the look ahead, are followed side by side.  They nest differently deep,
count different numbers of rules and note different things, but they stay at the same token: they
`Concur`, until a limit ends one of them.  The result is `lookahead_agrees`.
-/

namespace Adql

open Adql.Parser Adql.Grammar Adql.Session

/-! ### Runs at the same token -/

/-- Two sessions that do not recover from failures stand at the same token. -/
structure Session.Abreast (first second : Session) : Prop where
  /-- The cursors are the same. -/
  cursor : second.cursor = first.cursor
  /-- The operators bind alike. -/
  precedence : second.settings.precedence = first.settings.precedence
  /-- The first session does not recover. -/
  strict : first.settings.recover = false
  /-- The second session does not recover. -/
  strict' : second.settings.recover = false
  /-- There is an end marker behind the tokens. -/
  ends : first.Ends

/-- A session differs from another one in nothing that decides what is read next. -/
structure Session.Resembles (session other : Session) : Prop where
  /-- The cursors are the same. -/
  cursor : session.cursor = other.cursor
  /-- The settings are the same. -/
  settings : session.settings = other.settings
  /-- Both parses were ended, or none. -/
  halted : session.halted = other.halted

namespace Session

variable {first second first' second' : Session}

/-- Sessions stay at the same token if nothing that matters changes. -/
theorem Abreast.of_resembles (h : first.Abreast second) (same : first'.Resembles first)
    (same' : second'.Resembles second) : first'.Abreast second' where
  cursor := by rw [same.cursor, same'.cursor, h.cursor]
  precedence := by rw [same.settings, same'.settings, h.precedence]
  strict := by rw [same.settings, h.strict]
  strict' := by rw [same'.settings, h.strict']
  ends := by rw [Ends, same.cursor]; exact h.ends

/-- Sessions stay at the same token if their cursors move alike. -/
theorem Abreast.of_follows (h : first.Abreast second) (follows : first.Follows first')
    (follows' : second.Follows second') (cursor : second'.cursor = first'.cursor) :
    first'.Abreast second' where
  cursor := cursor
  precedence := by rw [follows.settings, follows'.settings, h.precedence]
  strict := by rw [follows.settings, h.strict]
  strict' := by rw [follows'.settings, h.strict']
  ends := h.ends.follows follows

/-- A cursor that has come back to where it was is the same. -/
theorem Follows.cursor_of_position {before after : Session} (h : before.Follows after)
    (back : after.cursor.position = before.cursor.position) : after.cursor = before.cursor := by
  obtain ⟨⟨tokens, final, position⟩, _⟩ := before
  obtain ⟨⟨tokens', final', position'⟩, _⟩ := after
  obtain ⟨_, sameTokens, sameFinal⟩ := h
  cases sameTokens
  cases sameFinal
  cases back
  rfl

/-- Dropping notes does not matter. -/
theorem resembles_dropNotesAhead (session : Session) :
    (dropNotesAhead session).Resembles session :=
  ⟨cursor_dropNotesAhead session, (Follows.dropNotesAhead session).settings,
    halted_dropNotesAhead session⟩

end Session

/-- The results of two runs.  They agree, at the same token, or a limit has ended one of them. -/
inductive Concur {α β : Type} (V : α → β → Prop) :
    EStateM.Result Failure Session α → EStateM.Result Failure Session β → Prop
  | ok {a b after after'} : V a b → after.Abreast after' → Concur V (.ok a after) (.ok b after')
  | error {failure failure' after after'} : failure.fatal = false → failure'.fatal = false →
      after.Abreast after' → Concur V (.error failure after) (.error failure' after')
  | ended {result result'} :
      (sessionAfter result).halted = true ∨ (sessionAfter result').halted = true →
      Concur V result result'

namespace Concur

variable {α β γ δ : Type} {V : α → β → Prop} {W : γ → δ → Prop} {before before' : Session}

/-- A run that was ended stays so. -/
theorem ended_mono {r : EStateM.Result Failure Session α} {r' : EStateM.Result Failure Session β}
    {s : EStateM.Result Failure Session γ} {s' : EStateM.Result Failure Session δ}
    (halted : (sessionAfter r).halted = true ∨ (sessionAfter r').halted = true)
    (more : (sessionAfter r).Follows (sessionAfter s))
    (more' : (sessionAfter r').Follows (sessionAfter s')) : Concur W s s' :=
  .ended (halted.imp more.halted more'.halted)

/-- A sequence ends behind its first part. -/
theorem follows_bind {p : Parser α} {f : α → Parser γ}
    (rest : ∀ a after, p before = .ok a after → after.Follows (sessionAfter (f a after))) :
    (sessionAfter (p before)).Follows (sessionAfter ((p >>= f) before)) := by
  change Follows _ (sessionAfter (EStateM.bind p f before))
  unfold EStateM.bind
  cases run : p before with
  | ok a after => exact rest a after run
  | error failure after => exact .refl after

/-- Runs go on at the same token. -/
theorem bind {p : Parser α} {q : Parser β} {f : α → Parser γ} {g : β → Parser δ}
    (h : Concur V (p before) (q before'))
    (rest : ∀ a after, p before = .ok a after → after.Follows (sessionAfter (f a after)))
    (rest' : ∀ b after, q before' = .ok b after → after.Follows (sessionAfter (g b after)))
    (hf : ∀ a b after after', V a b → after.Abreast after' →
      Concur W (f a after) (g b after')) :
    Concur W ((p >>= f) before) ((q >>= g) before') := by
  have more := follows_bind rest
  have more' := follows_bind rest'
  change Follows _ (sessionAfter (EStateM.bind p f before)) at more
  change Follows _ (sessionAfter (EStateM.bind q g before')) at more'
  change Concur W (EStateM.bind p f before) (EStateM.bind q g before')
  unfold EStateM.bind at more more' ⊢
  generalize p before = r, q before' = r' at h more more' ⊢
  cases h with
  | ok value abreast => exact hf _ _ _ _ value abreast
  | error mild mild' abreast => exact .error mild mild' abreast
  | ended halted => exact ended_mono halted more more'

variable {p p' q q' : Parser α} {r : Parser β}

/-! #### Alternatives -/

/-- An alternative ends the parse if the parser that is tried does. -/
theorem halted_speculate (p : Parser α) (before : Session) :
    (sessionAfter (Parser.speculate p before)).halted =
      (sessionAfter (p before.trying)).halted := by
  cases run : p before.trying with
  | ok a after => rw [speculate_ok run]; rfl
  | error failure after => rw [speculate_error run]; rfl

/-- The same holds for an alternative of a choice. -/
theorem halted_alternative (p : Parser α) (before : Session) :
    (sessionAfter (Parser.alternative p before)).halted =
      (sessionAfter (p before.trying)).halted := by
  cases run : p before.trying with
  | ok a after =>
    rw [alternative_ok run]
    exact halted_dropNotesAhead after.settled
  | error failure after => rw [alternative_error run]; rfl

/-- Runs stay at the same token in an alternative. -/
theorem speculate (h : Concur V (p before.trying) (r before'.trying)) :
    Concur V (Parser.speculate p before) (Parser.speculate r before') := by
  have halts := halted_speculate p before
  have halts' := halted_speculate r before'
  generalize first : p before.trying = s, second : r before'.trying = s' at h halts halts'
  cases h with
  | ok value abreast =>
    rw [speculate_ok first, speculate_ok second]
    exact .ok value { abreast with }
  | error mild mild' abreast =>
    rw [speculate_error first, speculate_error second]
    exact .error mild mild' { abreast with }
  | ended halted =>
    refine .ended ?_
    rwa [halts, halts']

/-- Runs stay at the same token in an alternative of a choice. -/
theorem alternative (h : Concur V (p before.trying) (r before'.trying)) :
    Concur V (Parser.alternative p before) (Parser.alternative r before') := by
  refine bind (speculate h) (fun _ after _ => .dropNotesAhead after)
    (fun _ after _ => .dropNotesAhead after) fun a b after after' value abreast => ?_
  exact .ok value (abreast.of_resembles (resembles_dropNotesAhead after)
    (resembles_dropNotesAhead after'))

/-- Runs stay at the same token in a choice. -/
theorem firstOf (hq : moving.rel Eq q q')
    (first : Concur Eq (p before.trying) (p' before'.trying))
    (second : ∀ after after' : Session, after.Abreast after' →
      Concur Eq (q after.trying) (q' after'.trying)) :
    Concur Eq (Parser.firstOf p q before) (Parser.firstOf p' q' before') := by
  have more : (sessionAfter (Parser.alternative p before)).Follows
      (sessionAfter (Parser.firstOf p q before)) := Moves.follows_firstOf hq.1
  have more' : (sessionAfter (Parser.alternative p' before')).Follows
      (sessionAfter (Parser.firstOf p' q' before')) := Moves.follows_firstOf hq.2
  have tried := alternative first
  unfold Parser.firstOf at more more' ⊢
  generalize Parser.alternative p before = s, Parser.alternative p' before' = s'
    at tried more more' ⊢
  cases tried with
  | ok value abreast => exact .ok value abreast
  | error mild mild' abreast =>
    simp only [mild, mild', Bool.false_eq_true, ↓reduceIte]
    exact alternative (second _ _ abreast)
  | ended halted => exact ended_mono halted more more'

/-- Runs stay at the same token in an optional part. -/
theorem optional (h : Concur Eq (p before.trying) (p' before'.trying)) :
    Concur Eq (Parser.optional p before) (Parser.optional p' before') := by
  have more (p : Parser α) (before : Session) :
      sessionAfter (Parser.optional p before) = sessionAfter (Parser.speculate p before) := by
    unfold Parser.optional
    cases Parser.speculate p before with
    | ok a after => rfl
    | error failure after =>
      dsimp only
      split <;> rfl
  have tried := speculate h
  have same := more p before
  have same' := more p' before'
  unfold Parser.optional at same same' ⊢
  generalize Parser.speculate p before = s, Parser.speculate p' before' = s' at tried same same' ⊢
  cases tried with
  | ok value abreast => exact .ok (congrArg some value) abreast
  | error mild mild' abreast =>
    simp only [mild, mild', Bool.false_eq_true, ↓reduceIte]
    exact .ok rfl abreast
  | ended halted =>
    refine .ended ?_
    rwa [same, same']

/-! #### Rules -/

/-- Runs stay at the same token in a rule. -/
theorem nested (rule : Rule) (h : before.Abreast before')
    (body : Concur V (p (inside rule before)) (r (inside rule before'))) :
    Concur V (Parser.nested rule p before) (Parser.nested rule r before') := by
  have start : before'.cursor.position = before.cursor.position := by rw [h.cursor]
  unfold Parser.nested
  rw [start]
  generalize p (inside rule before) = s, r (inside rule before') = s' at body ⊢
  cases body with
  | ok value abreast => exact .ok value { abreast with }
  | @error _ _ after after' mild mild' abreast =>
    refine .error mild mild' ?_
    unfold outsideFailed
    split
    · exact {
        cursor := by
          change after'.cursor.moveTo _ = after.cursor.moveTo _
          rw [abreast.cursor]
        precedence := abreast.precedence
        strict := abreast.strict
        strict' := abreast.strict'
        ends := abreast.ends }
    · exact { abreast with }
  | ended halted =>
    refine .ended ?_
    cases s <;> cases s' <;>
      simpa [sessionAfter, Session.halted_outsideFailed, outside] using halted

/-- A rule that is not counted was refused by a parse that has ended. -/
theorem halted_countRule {rule : Rule} {failure : Failure} {after : Session}
    (refused : countRule rule before = .error failure after) : after.halted = true := by
  unfold Grammar.countRule at refused
  split at refused
  · rw [countInvocation_run] at refused
    split at refused
    · cases refused
      assumption
    · split at refused
      · cases refused
        rfl
      · cases refused
  · cases refused

/-- Counting a rule changes nothing that matters. -/
theorem resembles_countRule {rule : Rule} {after : Session}
    (counted : countRule rule before = .ok () after) : after.Resembles before := by
  unfold Grammar.countRule at counted
  split at counted
  · rw [countInvocation_run] at counted
    split at counted
    · cases counted
    · split at counted
      · cases counted
      · cases counted
        exact ⟨rfl, rfl, rfl⟩
  · cases counted
    exact ⟨rfl, rfl, rfl⟩

/-- Rules are counted at the same token. -/
theorem countRule (rule : Rule) (h : before.Abreast before') :
    Concur Eq (Grammar.countRule rule before) (Grammar.countRule rule before') := by
  cases first : Grammar.countRule rule before with
  | error failure after => exact .ended (.inl (halted_countRule first))
  | ok _ after =>
    cases second : Grammar.countRule rule before' with
    | error failure after => exact .ended (.inr (halted_countRule second))
    | ok _ after' =>
      exact .ok rfl (h.of_resembles (resembles_countRule first) (resembles_countRule second))

/-- A rule that may not nest deeper ends the parse. -/
theorem halted_apply_zero (lookahead : Bool) (rule : Rule) (before : Session) :
    (sessionAfter (apply lookahead 0 rule before)).halted = true := by
  change (sessionAfter (EStateM.bind (Grammar.countRule rule) _ before)).halted = true
  unfold EStateM.bind
  cases counted : Grammar.countRule rule before with
  | error failure after => exact halted_countRule counted
  | ok _ after =>
    change (sessionAfter (refuseDepth after)).halted = true
    rw [refuseDepth_run]
    by_cases halted : after.halted = true
    · simp [sessionAfter, halted]
    · simp [sessionAfter, halted, Session.haltedBy]

/-! #### Tries -/

/-- The second run may go through a session that does not differ in anything that matters. -/
theorem of_resembles {s : EStateM.Result Failure Session α} {value : β} {after after' : Session}
    (h : Concur V s (.ok value after)) (same : after'.Resembles after) :
    Concur V s (.ok value after') := by
  cases h with
  | ok value abreast => exact .ok value (abreast.of_resembles ⟨rfl, rfl, rfl⟩ same)
  | ended halted =>
    refine .ended (halted.imp id fun halted => ?_)
    exact same.halted.trans halted

/-- The same holds if the second run fails. -/
theorem of_resembles_error {s : EStateM.Result Failure Session α} {failure : Failure}
    {after after' : Session}
    (h : Concur V s (.error failure after : EStateM.Result Failure Session β))
    (same : after'.Resembles after) :
    Concur V s (.error failure after' : EStateM.Result Failure Session β) := by
  cases h with
  | error mild mild' abreast => exact .error mild mild' (abreast.of_resembles ⟨rfl, rfl, rfl⟩ same)
  | ended halted =>
    refine .ended (halted.imp id fun halted => ?_)
    exact same.halted.trans halted

/-- A run agrees with a try of a rule if it agrees with the rule. -/
theorem tried {s : EStateM.Result Failure Session α} {lookahead : Bool} {less : Nat}
    (rule trial : Rule) {W : α → rule.Result → Prop} (named : rule.name?.isSome = true)
    (named' : trial.name?.isSome = true)
    (h : ∀ inner : Session, inner.Resembles before' →
      Concur W s (apply lookahead less rule inner)) :
    Concur W s (Parser.alternative (do
      Grammar.countRule trial
      Parser.nested trial (apply lookahead less rule)) before') := by
  cases counted : Grammar.countRule trial before'.trying with
  | error failure after =>
    have run : (do Grammar.countRule trial; Parser.nested trial (apply lookahead less rule) :
        Parser rule.Result) before'.trying = .error failure after :=
      bind_run_error.mpr (.inl counted)
    rw [alternative_error run]
    have halted : after.halted = true := halted_countRule counted
    exact .ended (.inr halted)
  | ok _ session =>
    have same := resembles_countRule counted
    have agrees := h (inside trial session) ⟨same.cursor, same.settings, same.halted⟩
    cases found : apply lookahead less rule (inside trial session) with
    | ok value after =>
      rw [found] at agrees
      have run : (do Grammar.countRule trial; Parser.nested trial (apply lookahead less rule) :
          Parser rule.Result) before'.trying = .ok value (outside trial after) := by
        refine bind_run_ok.mpr ⟨_, session, counted, ?_⟩
        rw [Parser.nested, found]
      rw [alternative_ok run]
      have dropped := resembles_dropNotesAhead (outside trial after).settled
      exact agrees.of_resembles ⟨dropped.cursor, dropped.settings, dropped.halted⟩
    | error failure after =>
      rw [found] at agrees
      have back : after.cursor.position = session.cursor.position :=
        (position_apply_error named found :)
      have run : (do Grammar.countRule trial; Parser.nested trial (apply lookahead less rule) :
          Parser rule.Result) before'.trying =
            .error failure (outsideFailed trial session.cursor.position after) := by
        refine bind_run_error.mpr (.inr ⟨_, session, counted, ?_⟩)
        rw [Parser.nested, found]
      rw [alternative_error run]
      refine agrees.of_resembles_error ⟨?_, settings_outsideFailed _ _ _,
        halted_outsideFailed _ _ _⟩
      change (outsideFailed trial session.cursor.position after).cursor = after.cursor
      rw [outsideFailed, if_pos named', ← back]
      rfl

end Concur

/-! ### The grammar -/

/-- Both parsers move forward, and they stay at the same token. -/
def concurParsers : NotingRelation where
  rel V p q := moving.rel V p q ∧
    ∀ before before' : Session, before.Abreast before' → Concur V (p before) (q before')
  rel_pure value := ⟨moving.rel_pure value, fun _ _ => .ok value⟩
  rel_bind hp hf :=
    ⟨moving.rel_bind hp.1 fun a b value => (hf a b value).1, fun before before' abreast =>
      .bind (hp.2 before before' abreast)
        (fun a after found =>
          have ⟨b, value⟩ := (hp.1.1 before).value found
          ((hf a b value).1.1 after).follows)
        (fun b after found =>
          have ⟨a, value⟩ := (hp.1.2 before').value found
          ((hf a b value).1.2 after).follows)
        fun a b after after' value => (hf a b value).2 after after'⟩
  rel_currentKind := ⟨moving.rel_currentKind, fun _ _ abreast =>
    .ok (congrArg (·.current.kind) abreast.cursor.symm) abreast⟩
  rel_nextKind := ⟨moving.rel_nextKind, fun _ _ abreast =>
    .ok (congrArg (fun cursor => (cursor.peek 1).kind) abreast.cursor.symm) abreast⟩
  rel_kindsAhead := ⟨moving.rel_kindsAhead, fun _ _ abreast =>
    .ok (congrArg TokenCursor.kindsAhead abreast.cursor.symm) abreast⟩
  rel_remaining := ⟨moving.rel_remaining, fun _ _ abreast =>
    .ok (congrArg TokenCursor.remaining abreast.cursor.symm) abreast⟩
  rel_precedence := ⟨moving.rel_precedence, fun _ _ abreast =>
    .ok abreast.precedence.symm abreast⟩
  rel_advance := ⟨moving.rel_advance, fun before before' abreast =>
    .ok trivial (abreast.of_follows (.advance before) (.advance before')
      (congrArg TokenCursor.advance abreast.cursor))⟩
  rel_noteAll kinds := ⟨movingParsers.rel_noteAll kinds, fun before before' abreast =>
    .ok rfl (abreast.of_follows (.foldl_noting kinds before) (.foldl_noting kinds before')
      (by rw [cursor_foldl_noting, cursor_foldl_noting, abreast.cursor]))⟩
  rel_fail := ⟨moving.rel_fail, fun before before' abreast =>
    .error before.failure_fatal before'.failure_fatal abreast⟩
  rel_firstOf hp hq := ⟨moving.rel_firstOf hp.1 hq.1, fun before before' abreast =>
    .firstOf hq.1 (hp.2 before.trying before'.trying { abreast with })
      fun after after' abreast => hq.2 after.trying after'.trying { abreast with }⟩
  rel_optional hp := ⟨moving.rel_optional hp.1, fun before before' abreast =>
    .optional (hp.2 before.trying before'.trying { abreast with })⟩
  rel_orRecover sync ifFailed hp := ⟨moving.rel_orRecover sync ifFailed hp.1,
    fun before before' abreast => by
      have off := congrArg Settings.recover (hp.1.1 before).follows.settings
      have off' := congrArg Settings.recover (hp.1.2 before').follows.settings
      rw [Parallel.orRecover_strict sync ifFailed rfl (off.trans abreast.strict),
        Parallel.orRecover_strict sync ifFailed rfl (off'.trans abreast.strict')]
      exact hp.2 before before' abreast⟩

/-- Staying at the same token is kept by the grammar. -/
def concur : Congruence :=
  concurParsers.toCongruence
    ⟨moving_current, fun _ _ abreast =>
      .ok (congrArg TokenCursor.current abreast.cursor.symm) abreast⟩
    ⟨moving_advance, fun before before' abreast =>
      .ok (congrArg TokenCursor.current abreast.cursor.symm)
        (abreast.of_follows (.advance before) (.advance before')
          (congrArg TokenCursor.advance abreast.cursor))⟩
    ⟨⟨fun before => .ok ⟨_, rfl⟩ (.refl before), fun before => .ok ⟨_, rfl⟩ (.refl before)⟩,
      fun before before' abreast => by
        have none : before.canRecover = false := by rw [Session.canRecover, abreast.strict]; rfl
        have none' : before'.canRecover = false := by
          rw [Session.canRecover, abreast.strict']; rfl
        exact .ok (none.trans none'.symm) abreast⟩

/-! ### Parentheses -/

/-- The look ahead decides what a parenthesis starts. -/
theorem parenthesis_run (apply : (rule : Rule) → Parser rule.Result) (session : Session) :
    parenthesis true apply session =
      if startsQuery (session.cursor.peek 1).kind then apply .scalarSubquery session
      else if (session.cursor.peek 1).kind = .leftParen &&
          parenthesesOpenQuery session.cursor.kindsAhead then eitherParenthesis apply session
      else apply .parenthesized session := by
  change (if startsQuery (session.cursor.peek 1).kind then _ else _ : Parser Expr) session = _
  split
  · rfl
  · change (if (session.cursor.peek 1).kind = .leftParen &&
      parenthesesOpenQuery session.cursor.kindsAhead then _ else _ : Parser Expr) session = _
    split <;> rfl

/-- A rule in an alternative that yields no value ends the parse, or it is as if it had not been
tried. -/
theorem alternative_rejected {lookahead : Bool} {allowance : Nat} {rule : Rule} {before : Session}
    (named : rule.name?.isSome = true)
    (rejects : Rejects (apply lookahead allowance rule) before.trying) :
    ∃ failure after, alternative (apply lookahead allowance rule) before = .error failure after ∧
      (failure.fatal = true → after.halted = true) ∧ before.Follows after ∧
      after.cursor = before.cursor := by
  cases run : apply lookahead allowance rule before.trying with
  | ok value after => exact absurd run (rejects value after)
  | error failure after =>
    have tried := alternative_error run
    have moves : Moves _ before (alternative (apply lookahead allowance rule) before) :=
      Moves.alternative (apply_moving lookahead allowance rule).1
    rw [tried] at moves
    cases moves with
    | error follows fatal =>
      refine ⟨failure, after.settled, tried, fatal, follows, ?_⟩
      have back : after.cursor.position = before.trying.cursor.position :=
        position_apply_error named run
      exact follows.cursor_of_position back

/-- The second try at a parenthesis comes behind the first one. -/
theorem follows_eitherParenthesis (allowance : Nat) (before : Session) :
    (sessionAfter (alternative (apply false allowance .parenthesizedTrial) before)).Follows
      (sessionAfter (eitherParenthesis (apply false allowance) before)) :=
  Moves.follows_firstOf (apply_moving false allowance .subqueryTrial).2

section

variable {allowance : Nat}
  (ih : ∀ allowance' rule, concur.rel Eq (apply true allowance rule) (apply false allowance' rule))

include ih

/-- What is read as an expression agrees with a try to read one. -/
theorem concur_parenthesizedTrial (allowance' : Nat) {before before' : Session}
    (h : before.Abreast before') :
    Concur Eq (apply true allowance .parenthesized before)
      (alternative (apply false allowance' .parenthesizedTrial) before') := by
  cases allowance' with
  | zero =>
    refine .ended (.inr ?_)
    rw [Concur.halted_alternative]
    exact Concur.halted_apply_zero _ _ _
  | succ less =>
    exact .tried .parenthesized .parenthesizedTrial rfl rfl fun inner same =>
      (ih less .parenthesized).2 before inner (h.of_resembles ⟨rfl, rfl, rfl⟩ same)

/-- What is read as a query agrees with a try to read one. -/
theorem concur_subqueryTrial (allowance' : Nat) {before before' : Session}
    (h : before.Abreast before') :
    Concur Eq (apply true allowance .scalarSubquery before)
      (alternative (apply false allowance' .subqueryTrial) before') := by
  cases allowance' with
  | zero =>
    refine .ended (.inr ?_)
    rw [Concur.halted_alternative]
    exact Concur.halted_apply_zero _ _ _
  | succ less =>
    exact .tried .scalarSubquery .subqueryTrial rfl rfl fun inner same =>
      (ih less .scalarSubquery).2 before inner (h.of_resembles ⟨rfl, rfl, rfl⟩ same)

/-- Where a word that starts a query follows the parenthesis, trying an expression first makes no
difference. -/
theorem concur_queryAhead (allowance' : Nat) {before before' : Session} (h : before.Abreast before')
    (starts : startsQuery (before.cursor.peek 1).kind = true) :
    Concur Eq (apply true allowance .scalarSubquery before)
      (eitherParenthesis (apply false allowance') before') := by
  have more := follows_eitherParenthesis allowance' before'
  have ends' : before'.Ends := by
    rw [Ends, h.cursor]
    exact h.ends
  have vain : Rejects (apply false allowance' .parenthesizedTrial) before'.trying := by
    refine .apply fun less inner _ same => rejects_parenthesized ?_ ?_
    · rw [Ends, same]
      exact ends'
    · rw [same]
      change startsQuery (before'.cursor.peek 1).kind = true
      rw [h.cursor]
      exact starts
  obtain ⟨failure, after, run, fatal, follows, back⟩ := alternative_rejected rfl vain
  unfold eitherParenthesis firstOf at more ⊢
  rw [run] at more ⊢
  cases failed : failure.fatal with
  | true => exact .ended (.inr (more.halted (fatal failed)))
  | false =>
    simp only [failed, Bool.false_eq_true, ↓reduceIte]
    exact concur_subqueryTrial ih allowance'
      (h.of_follows (.refl before) follows (back.trans h.cursor))

/-- Where the parentheses end in front of anything but a word that starts a query, trying a query
behind an expression makes no difference. -/
theorem concur_expressionAhead (allowance' : Nat) {before before' : Session}
    (h : before.Abreast before')
    (other : before.current.kind = .leftParen →
      parenthesesOpenQuery before.cursor.kindsAhead = false) :
    Concur Eq (apply true allowance .parenthesized before)
      (eitherParenthesis (apply false allowance') before') := by
  have more := follows_eitherParenthesis allowance' before'
  have tried := concur_parenthesizedTrial ih allowance' h
  unfold eitherParenthesis firstOf at more ⊢
  generalize first : apply true allowance .parenthesized before = s,
    alternative (apply false allowance' .parenthesizedTrial) before' = s' at tried more ⊢
  cases tried with
  | ok value abreast => exact .ok value abreast
  | ended halted => exact .ended (halted.imp id more.halted)
  | @error failure failure' after after' mild mild' abreast =>
    have behind := ((apply_moving true allowance .parenthesized).1 before).follows_error first
    have back := behind.cursor_of_position (position_apply_error rfl first)
    have vain : Rejects (apply false allowance' .subqueryTrial) after'.trying := by
      refine .apply fun less inner _ same => ?_
      have here : inner.cursor = before.cursor := same.trans (abreast.cursor.trans back)
      refine rejects_scalarSubquery ?_ fun opening => ?_
      · rw [Ends, here]
        exact h.ends
      · rw [Session.current, here] at opening
        rw [here]
        exact other opening
    obtain ⟨failure₂, after₂, run₂, fatal, follows, same⟩ := alternative_rejected rfl vain
    simp only [mild', Bool.false_eq_true, ↓reduceIte] at more ⊢
    rw [run₂]
    cases failed : failure₂.fatal with
    | true => exact .ended (.inr (fatal failed))
    | false =>
      refine .error mild failed (abreast.of_follows (.refl after) follows ?_)
      exact same.trans abreast.cursor

/-- The look ahead at parentheses makes no difference if it makes none inside of them. -/
theorem concur_parenthesis (allowance' : Nat) :
    concur.rel Eq (parenthesis true (apply true allowance))
      (parenthesis false (apply false allowance')) := by
  refine ⟨⟨(moving.rel_parenthesis (apply_moving true allowance) true).1,
    (moving.rel_parenthesis (apply_moving false allowance') false).2⟩, fun before before' h => ?_⟩
  change Concur Eq _ (eitherParenthesis (apply false allowance') before')
  rw [parenthesis_run]
  split
  · next starts => exact concur_queryAhead ih allowance' h starts
  · next word =>
    split
    · have tries (rule : Rule) := ih allowance' rule
      exact .firstOf (tries .subqueryTrial).1
        ((tries .parenthesizedTrial).2 before.trying before'.trying { h with })
        fun after after' abreast =>
          (tries .subqueryTrial).2 after.trying after'.trying { abreast with }
    · next query =>
      refine concur_expressionAhead ih allowance' h fun opening => ?_
      refine TokenCursor.parenthesesOpenQuery_eq_false
        (TokenCursor.inside_of_kind h.ends ?_) opening (by simpa using word) fun next => ?_
      · rw [show before.cursor.current.kind = .leftParen from opening]
        nofun
      · simpa [next] using query

end

/-- A rule that looks ahead at parentheses stays at the same token as one that does not. -/
theorem apply_concur (allowance allowance' : Nat) (rule : Rule) :
    concur.rel Eq (apply true allowance rule) (apply false allowance' rule) := by
  have moves (allowance allowance' : Nat) (rule : Rule) :
      moving.rel Eq (apply true allowance rule) (apply false allowance' rule) :=
    ⟨(apply_moving true allowance rule).1, (apply_moving false allowance' rule).2⟩
  induction allowance generalizing allowance' rule with
  | zero =>
    refine ⟨moves 0 allowance' rule, fun before before' _ => ?_⟩
    exact .ended (.inl (Concur.halted_apply_zero true rule before))
  | succ allowance ih =>
    refine ⟨moves (allowance + 1) allowance' rule, fun before before' h => ?_⟩
    cases allowance' with
    | zero => exact .ended (.inr (Concur.halted_apply_zero false rule before'))
    | succ allowance' =>
      have bodies := concur.rel_bodies (ih allowance') (concur_parenthesis ih allowance') rule
      refine .bind (.countRule rule h)
        (fun _ after _ => (Moves.nested rule bodies.1.1).follows)
        (fun _ after _ => (Moves.nested rule bodies.1.2).follows)
        fun _ _ after after' _ abreast => ?_
      have inner : (inside rule after).Abreast (inside rule after') := { abreast with }
      exact .nested rule abreast (bodies.2 _ _ inner)

/-! ### Calls -/

/-- Calls a rule from outside, without a look ahead at parentheses. -/
def applyPlainly (rule : Rule) : Parser rule.Result := do
  apply false (← get).settings.maxDepth rule

/-- Two calls succeed with the same value and at the same token, or both fail. -/
inductive CallsAgree {α : Type} :
    EStateM.Result Failure Session α → EStateM.Result Failure Session α → Prop
  | ok {value after after'} : after'.cursor = after.cursor →
      CallsAgree (.ok value after) (.ok value after')
  | error {failure failure' after after'} :
      CallsAgree (.error failure after) (.error failure' after')

/-- The tokens of `((SELECT * FROM t))`. -/
def subqueryTokens : List Token :=
  [⟨.leftParen, "(", ⟨0, 1⟩, 1, 1⟩, ⟨.leftParen, "(", ⟨1, 2⟩, 1, 2⟩,
   ⟨.keyword .SELECT, "SELECT", ⟨2, 8⟩, 1, 3⟩, ⟨.star, "*", ⟨9, 10⟩, 1, 10⟩,
   ⟨.keyword .FROM, "FROM", ⟨11, 15⟩, 1, 12⟩, ⟨.identifier, "t", ⟨16, 17⟩, 1, 17⟩,
   ⟨.rightParen, ")", ⟨17, 18⟩, 1, 18⟩, ⟨.rightParen, ")", ⟨18, 19⟩, 1, 19⟩]

end Adql
