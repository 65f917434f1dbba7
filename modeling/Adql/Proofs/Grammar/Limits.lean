import Adql.Proofs.Grammar.Progress

/-!
# Limits are transparent

The same tokens are parsed under two settings that differ in their limits, and the parses are run
side by side.  As long as no limit is reached their sessions differ in the settings only.  The parse
whose limit is reached first has stopped; what is known of its diagnostics is that all but a last
one about the limit are among the first diagnostics of the other parse.  `Limited` says this, and
every combinator keeps it, since none of them survives a failure for good.

The settings that are compared with are meant to reach no limit, but nothing is assumed about that
until the end: if they do, the session says so ever after.  So neither run needs to have the looser
limits.

The result is `limits_transparent`.
-/

namespace Adql

open Adql.Parser Adql.Grammar Adql.Session

/-! ### Stopped parses -/

/-- A parse has stopped, after common diagnostics with another one: either the last diagnostic is
about a limit, or there are as many as allowed. -/
def Session.StoppedWithin (session : Session) (others : List Diagnostic) : Prop :=
  ∃ common, common <+: others ∧
    ((∃ limit : Diagnostic, limit.isLimit = true ∧ session.errors.toList = common ++ [limit]) ∨
      session.errors.toList = common ∧ max 1 session.settings.maxErrors ≤ common.length)

/-- More diagnostics of the other parse do not matter to one that has stopped. -/
theorem Session.StoppedWithin.mono {session : Session} {others more : List Diagnostic}
    (h : session.StoppedWithin others) (longer : others <+: more) : session.StoppedWithin more := by
  obtain ⟨common, hprefix, hstop⟩ := h
  exact ⟨common, hprefix.trans longer, hstop⟩

/-- A parse that a limit ends has stopped, whatever the other one does from then on. -/
theorem Session.stoppedWithin_haltedBy {session : Session} {cause : DiagnosticCause}
    {others : List Diagnostic} (limit : (Diagnostic.atToken session.current cause).isLimit = true)
    (common : session.errors.toList <+: others) :
    (session.haltedBy cause).StoppedWithin others := by
  refine ⟨session.errors.toList, common, .inl ⟨_, limit, ?_⟩⟩
  simp [haltedBy]

/-- The results of a run and of a run under other limits.  They agree and no limit was reached, or
the other run was ended by a limit, or this one was. -/
inductive Limited {α β : Type} (other : Settings) (V : α → β → Prop) :
    EStateM.Result Failure Session α → EStateM.Result Failure Session β → Prop
  | ok {a b after} : V a b → after.halted = false →
      Limited other V (.ok a after) (.ok b (after.under other))
  | error {failure after} : failure.fatal = false → after.halted = false →
      Limited other V (.error failure after) (.error failure (after.under other))
  | ended {result result'} : (sessionAfter result').halted = true → Limited other V result result'
  | stopped {failure after result'} : failure.fatal = true →
      after.StoppedWithin (sessionAfter result').errors.toList →
      Limited other V (.error failure after) result'

namespace Limited

variable {α β γ δ : Type} {other : Settings} {V : α → β → Prop} {W : γ → δ → Prop}
  {before after : Session}

/-- A run that was ended by a limit stays so. -/
theorem ended_mono {r : EStateM.Result Failure Session γ} {r' : EStateM.Result Failure Session β}
    {s' : EStateM.Result Failure Session δ} (halted : (sessionAfter r').halted = true)
    (more : (sessionAfter r').Follows (sessionAfter s')) : Limited other W r s' :=
  .ended (more.halted halted)

/-- A run that has stopped stays so. -/
theorem stopped_mono {failure : Failure} {r' : EStateM.Result Failure Session β}
    {s' : EStateM.Result Failure Session δ} (fatal : failure.fatal = true)
    (stopped : after.StoppedWithin (sessionAfter r').errors.toList)
    (more : (sessionAfter r').Follows (sessionAfter s')) :
    Limited other W (.error failure after) s' :=
  .stopped fatal (stopped.mono more.errors)

/-- Runs go on side by side. -/
theorem bind {p : Parser α} {q : Parser β} {f : α → Parser γ} {g : β → Parser δ}
    (h : Limited other V (p before) (q (before.under other)))
    (hrest : ∀ b after, q (before.under other) = .ok b after →
      after.Follows (sessionAfter (g b after)))
    (hf : ∀ a b after, p before = .ok a after → V a b → after.halted = false →
      Limited other W (f a after) (g b (after.under other))) :
    Limited other W ((p >>= f) before) ((q >>= g) (before.under other)) := by
  have more : (sessionAfter (q (before.under other))).Follows
      (sessionAfter ((q >>= g) (before.under other))) := by
    change Follows _ (sessionAfter (EStateM.bind q g (before.under other)))
    unfold EStateM.bind
    cases hresult : q (before.under other) with
    | ok b session => exact hrest b session hresult
    | error failure session => exact .refl session
  change Limited other W (EStateM.bind p f before) (EStateM.bind q g (before.under other))
  change Follows _ (sessionAfter (EStateM.bind q g (before.under other))) at more
  unfold EStateM.bind at more ⊢
  generalize first : p before = r, q (before.under other) = r' at h more ⊢
  cases h with
  | ok value running => exact hf _ _ _ first value running
  | error mild running => exact .error mild running
  | ended halted => exact ended_mono halted more
  | stopped fatal stopped => exact stopped_mono fatal stopped more

variable {p p' q q' : Parser α} {r : Parser β}

/-! ### Alternatives -/

/-- Runs stay side by side in an alternative. -/
theorem speculate (h : Limited other V (p before.trying) (r (before.trying.under other))) :
    Limited other V (speculate p before) (speculate r (before.under other)) := by
  have same : (before.under other).trying = before.trying.under other := rfl
  have after' : sessionAfter (Parser.speculate r (before.under other)) =
      (sessionAfter (r (before.trying.under other))).settled := by
    cases hresult : r (before.trying.under other) with
    | ok b session => rw [speculate_ok (same ▸ hresult)]; rfl
    | error failure session => rw [speculate_error (same ▸ hresult)]; rfl
  generalize first : p before.trying = s, second : r (before.trying.under other) = s' at h after'
  cases h with
  | ok value running =>
    rw [speculate_ok first, speculate_ok (same ▸ second)]
    exact .ok value running
  | error mild running =>
    rw [speculate_error first, speculate_error (same ▸ second)]
    exact .error mild running
  | ended halted =>
    refine .ended ?_
    rw [after']
    exact halted
  | stopped fatal stopped =>
    rw [speculate_error first]
    refine .stopped fatal ?_
    rw [after']
    exact stopped

/-- Runs stay side by side in an alternative of a choice. -/
theorem alternative (h : Limited other V (p before.trying) (r (before.trying.under other))) :
    Limited other V (alternative p before) (alternative r (before.under other)) := by
  refine bind (speculate h) (fun b after _ => Follows.dropNotesAhead after) ?_
  intro a b after _ value running
  change Limited other V (.ok a (dropNotesAhead after)) (.ok b (dropNotesAhead (after.under other)))
  rw [dropNotesAhead_under]
  exact .ok value ((halted_dropNotesAhead after).trans running)

/-- Runs stay side by side in a choice. -/
theorem firstOf (hp : Limited other Eq (p before.trying) (p' (before.trying.under other)))
    (hq : ∀ failure after, Parser.alternative p before = .error failure after → after.halted = false →
      Limited other Eq (q after.trying) (q' (after.trying.under other)))
    (more : (sessionAfter (Parser.alternative p' (before.under other))).Follows
      (sessionAfter (firstOf p' q' (before.under other)))) :
    Limited other Eq (firstOf p q before) (firstOf p' q' (before.under other)) := by
  have h := alternative hp
  unfold Parser.firstOf at more ⊢
  generalize first : Parser.alternative p before = s,
    Parser.alternative p' (before.under other) = s' at h more ⊢
  cases h with
  | ok value running => exact .ok value running
  | error mild running =>
    simp only [mild, Bool.false_eq_true, ↓reduceIte]
    exact alternative (hq _ _ first running)
  | ended halted => exact ended_mono halted more
  | stopped fatal stopped =>
    simp only [fatal, ↓reduceIte]
    exact stopped_mono fatal stopped more

/-- Runs stay side by side in an optional part. -/
theorem optional (h : Limited other Eq (p before.trying) (p' (before.trying.under other))) :
    Limited other Eq (optional p before) (optional p' (before.under other)) := by
  have h := speculate h
  have more : (sessionAfter (Parser.speculate p' (before.under other))).Follows
      (sessionAfter (Parser.optional p' (before.under other))) := by
    unfold Parser.optional
    cases Parser.speculate p' (before.under other) with
    | ok a after => exact .refl after
    | error failure after =>
      dsimp only
      split
      · exact .refl after
      · exact .refl after
  unfold Parser.optional at more ⊢
  generalize Parser.speculate p before = s, Parser.speculate p' (before.under other) = s' at h more ⊢
  cases h with
  | ok value running => exact .ok (congrArg some value) running
  | error mild running =>
    simp only [mild, Bool.false_eq_true, ↓reduceIte]
    exact .ok rfl running
  | ended halted => exact ended_mono halted more
  | stopped fatal stopped =>
    simp only [fatal, ↓reduceIte]
    exact stopped_mono fatal stopped more

/-! ### Recovery -/

/-- A report under other settings differs in the settings only, if both parses end or none. -/
theorem reporting_under {failure : Failure}
    (same : ((after.under other).reporting failure).halted = (after.reporting failure).halted) :
    (after.under other).reporting failure = (after.reporting failure).under other := by
  simp only [reporting, under] at same ⊢
  rw [same]

/-- Runs stay side by side where they recover from a failure. -/
theorem recoverFrom {failure : Failure} (sync : List TokenKind) (ifFailed : α)
    (mild : failure.fatal = false) (running : after.halted = false)
    (recover : after.settings.recover = other.recover) :
    Limited other Eq ((do Parser.recoverFrom failure sync; pure ifFailed : Parser α) after)
      ((do Parser.recoverFrom failure sync; pure ifFailed : Parser α) (after.under other)) := by
  have recovers : (after.under other).canRecover = after.canRecover := by
    simp only [Session.canRecover, under, recover]
  change Limited other Eq (EStateM.bind (Parser.recoverFrom failure sync) _ after)
    (EStateM.bind (Parser.recoverFrom failure sync) _ (after.under other))
  unfold EStateM.bind
  rw [recoverFrom_run, recoverFrom_run, recovers, mild, Bool.false_or]
  cases after.canRecover with
  | false => exact .error mild running
  | true =>
    simp only [Bool.not_true, Bool.false_eq_true, ↓reduceIte]
    cases ended : ((after.under other).reporting failure).halted with
    | true => exact .ended ended
    | false =>
      cases stopped : (after.reporting failure).halted with
      | true =>
        refine .stopped rfl ⟨(after.reporting failure).errors.toList, List.prefix_rfl, .inr ⟨rfl, ?_⟩⟩
        simp only [reporting, running, Bool.false_or, decide_eq_true_eq] at stopped
        simp only [reporting, Array.size_push, Array.length_toList] at stopped ⊢
        omega
      | false =>
        rw [reporting_under (ended.trans stopped.symm)]
        exact .ok rfl rfl

/-- Runs stay side by side where failures are survived. -/
theorem orRecover (sync : List TokenKind) (ifFailed : α)
    (h : Limited other Eq (p before) (p' (before.under other)))
    (recover : ∀ failure after, p before = .error failure after →
      after.settings.recover = other.recover)
    (more : (sessionAfter (p' (before.under other))).Follows
      (sessionAfter (orRecover p' sync ifFailed (before.under other)))) :
    Limited other Eq (orRecover p sync ifFailed before)
      (orRecover p' sync ifFailed (before.under other)) := by
  unfold Parser.orRecover at more ⊢
  generalize first : p before = s, p' (before.under other) = s' at h more ⊢
  cases h with
  | ok value running => exact .ok value running
  | error mild running => exact recoverFrom sync ifFailed mild running (recover _ _ first)
  | ended halted => exact ended_mono halted more
  | @stopped failure after _ fatal stopped =>
    have passed : (do Parser.recoverFrom failure sync; pure ifFailed : Parser α) after =
        .error failure after := by
      change EStateM.bind (Parser.recoverFrom failure sync) _ after = _
      unfold EStateM.bind
      rw [recoverFrom_run, fatal, Bool.true_or]
      rfl
    dsimp only
    rw [passed]
    exact stopped_mono fatal stopped more

/-! ### Rules -/

/-- Runs stay side by side in a rule. -/
theorem nested (rule : Rule)
    (h : Limited other V (p (inside rule before)) (r ((inside rule before).under other))) :
    Limited other V (nested rule p before) (nested rule r (before.under other)) := by
  have same : inside rule (before.under other) = (inside rule before).under other := rfl
  unfold Parser.nested
  rw [same]
  generalize p (inside rule before) = s, r ((inside rule before).under other) = s' at h ⊢
  cases h with
  | ok value running => exact .ok value running
  | error mild running =>
    change Limited other V (.error _ _)
      (.error _ (outsideFailed rule before.cursor.position (Session.under _ other)))
    rw [outsideFailed_under]
    exact .error mild (by simpa using running)
  | ended halted =>
    refine .ended ?_
    cases s' with
    | ok b session => exact halted
    | error failure session => simpa [sessionAfter] using halted
  | @stopped failure after _ fatal stopped =>
    refine .stopped fatal ?_
    obtain ⟨common, hprefix, hstop⟩ := stopped
    refine ⟨common, ?_, by simpa using hstop⟩
    cases s' with
    | ok b session => exact hprefix
    | error failure session => simpa [sessionAfter] using hprefix

/-- The other run was ended, or this one has stopped, or both count one more application. -/
theorem countRule (rule : Rule) (running : before.halted = false) :
    Limited other Eq (countRule rule before) (countRule rule (before.under other)) := by
  unfold Grammar.countRule
  split
  · rw [countInvocation_run, countInvocation_run]
    have same : (before.under other).counted = before.counted.under other := rfl
    have running' : (before.under other).halted = false := running
    rw [running, running', same]
    simp only [Bool.false_eq_true, ↓reduceIte]
    cases overBudget (before.counted.under other) with
    | some limit => exact .ended rfl
    | none =>
      cases overBudget before.counted with
      | some limit => exact .stopped rfl (stoppedWithin_haltedBy rfl List.prefix_rfl)
      | none => exact .ok rfl running
  · exact .ok rfl running

/-- A refusal to nest deeper ends the other run. -/
theorem refused {r : EStateM.Result Failure Session α} (running : after.halted = false) :
    Limited other V r (refuseDepth (after.under other) : EStateM.Result Failure Session β) := by
  refine .ended ?_
  rw [refuseDepth_run]
  simp only [under, running, Bool.false_eq_true, ↓reduceIte]
  rfl

/-- A refusal to nest deeper stops this run, whatever the other one does. -/
theorem refusing {r' : EStateM.Result Failure Session β} (running : after.halted = false)
    (more : after.errors.toList <+: (sessionAfter r').errors.toList) :
    Limited other V (refuseDepth after : EStateM.Result Failure Session α) r' := by
  rw [refuseDepth_run]
  simp only [running, Bool.false_eq_true, ↓reduceIte]
  exact .stopped rfl (stoppedWithin_haltedBy rfl more)

end Limited

/-! ### The grammar under limits -/

/-- A running session and settings that have the same operators and recover as well. -/
structure Session.Comparable (session : Session) (other : Settings) : Prop where
  /-- Both recover from failures, or none does. -/
  recover : session.settings.recover = other.recover
  /-- Both have the same operators. -/
  precedence : session.settings.precedence = other.precedence
  /-- No limit has ended the parse. -/
  running : session.halted = false

/-- A later session is comparable as long as no limit has ended the parse. -/
theorem Session.Comparable.follows {before after : Session} {other : Settings}
    (h : before.Comparable other) (follows : before.Follows after)
    (running : after.halted = false) : after.Comparable other where
  recover := by rw [follows.settings, h.recover]
  precedence := by rw [follows.settings, h.precedence]
  running := running

/-- Running side by side is kept by the ways to combine parsers. -/
def limitedParsers (other : Settings) : NotingRelation where
  rel V p q := moving.rel V p q ∧ ∀ before : Session, before.Comparable other →
    Limited other V (p before) (q (before.under other))
  rel_pure value := ⟨moving.rel_pure value, fun _ h => .ok value h.running⟩
  rel_bind hp hf :=
    ⟨moving.rel_bind hp.1 fun a b value => (hf a b value).1, fun before h =>
      .bind (hp.2 before h)
        (fun b after found =>
          have ⟨a, value⟩ := (hp.1.2 _).value found
          ((hf a b value).1.2 after).follows)
        fun a b after found value running =>
          (hf a b value).2 after (h.follows ((hp.1.1 before).follows_ok found) running)⟩
  rel_currentKind := ⟨moving.rel_currentKind, fun _ h => .ok rfl h.running⟩
  rel_nextKind := ⟨moving.rel_nextKind, fun _ h => .ok rfl h.running⟩
  rel_kindsAhead := ⟨moving.rel_kindsAhead, fun _ h => .ok rfl h.running⟩
  rel_remaining := ⟨moving.rel_remaining, fun _ h => .ok rfl h.running⟩
  rel_precedence := ⟨moving.rel_precedence, fun _ h => .ok h.precedence h.running⟩
  rel_advance := ⟨moving.rel_advance, fun _ h => .ok trivial h.running⟩
  rel_noteAll kinds := ⟨movingParsers.rel_noteAll kinds, fun before h => by
    change Limited other Eq (.ok () (kinds.foldl Session.noting before))
      (.ok () (kinds.foldl Session.noting (before.under other)))
    rw [foldl_noting_under]
    exact .ok rfl ((halted_foldl_noting kinds before).trans h.running)⟩
  rel_fail := ⟨moving.rel_fail, fun before h => .error (failure_fatal before) h.running⟩
  rel_firstOf hp hq := ⟨moving.rel_firstOf hp.1 hq.1, fun before h =>
    .firstOf (hp.2 before.trying ⟨h.recover, h.precedence, h.running⟩)
      (fun failure after found running =>
        have ⟨recover, precedence, running⟩ :=
          h.follows ((Moves.alternative hp.1.1).follows_error found) running
        hq.2 after.trying ⟨recover, precedence, running⟩)
      (Moves.follows_firstOf hq.1.2)⟩
  rel_optional hp := ⟨moving.rel_optional hp.1, fun before h =>
    .optional (hp.2 before.trying ⟨h.recover, h.precedence, h.running⟩)⟩
  rel_orRecover sync ifFailed hp := ⟨moving.rel_orRecover sync ifFailed hp.1, fun before h =>
    .orRecover sync ifFailed (hp.2 before h)
      (fun failure after found => by
        rw [((hp.1.1 before).follows_error found).settings]
        exact h.recover)
      ((hp.1.2 _).follows_orRecover sync ifFailed)⟩

/-- Running side by side is kept by the grammar. -/
def limited (other : Settings) : Congruence :=
  (limitedParsers other).toCongruence ⟨moving_current, fun _ h => .ok rfl h.running⟩
    ⟨moving_advance, fun _ h => .ok rfl h.running⟩
    ⟨⟨fun before => .ok ⟨_, rfl⟩ (.refl before), fun before => .ok ⟨_, rfl⟩ (.refl before)⟩,
      fun before h => .ok (by
        simp only [Session.canRecover, under, h.recover]) h.running⟩

/-- Rules with any two allowances run side by side. -/
theorem apply_limited (other : Settings) (lookahead : Bool) (allowance allowance' : Nat)
    (rule : Rule) :
    (limited other).rel Eq (apply lookahead allowance rule) (apply lookahead allowance' rule) := by
  have moves (rule : Rule) (allowance allowance' : Nat) :
      moving.rel Eq (apply lookahead allowance rule) (apply lookahead allowance' rule) :=
    ⟨(apply_moving lookahead allowance rule).1, (apply_moving lookahead allowance' rule).2⟩
  have inner (rule : Rule) (allowance : Nat) (session : Session) : session.Follows (sessionAfter
      (nested rule (body lookahead (apply lookahead allowance) rule) session)) :=
    (Moves.nested rule
      (moving.rel_body (apply_moving lookahead allowance) lookahead rule).1).follows
  have refusal (rule : Rule) (session : Session) : session.Follows (sessionAfter
      (refuseDepth session : EStateM.Result Failure Session rule.Result)) :=
    (Moves.refuseDepth (P := fun _ => True)).follows
  induction allowance generalizing allowance' rule with
  | zero =>
    refine ⟨moves rule 0 allowance', fun before h => ?_⟩
    cases allowance' with
    | zero =>
      exact .bind (.countRule rule h.running) (fun _ session _ => refusal rule session)
        fun _ _ after _ _ running => .refused running
    | succ allowance' =>
      exact .bind (.countRule rule h.running) (fun _ session _ => inner rule allowance' session)
        fun _ _ after _ _ running => .refusing running (inner rule allowance' (after.under other)).errors
  | succ allowance ih =>
    refine ⟨moves rule (allowance + 1) allowance', fun before h => ?_⟩
    cases allowance' with
    | zero =>
      exact .bind (.countRule rule h.running) (fun _ session _ => refusal rule session)
        fun _ _ after _ _ running => .refused running
    | succ allowance' =>
      refine .bind (.countRule rule h.running) (fun _ session _ => inner rule allowance' session) ?_
      intro _ _ after found _ running
      have body := (limited other).rel_body (fun rule => ih allowance' rule) lookahead rule
      obtain ⟨recover, precedence, running⟩ :=
        h.follows ((Moves.countRule rule).follows_ok found) running
      exact .nested rule (body.2 (inside rule after) ⟨recover, precedence, running⟩)

/-! ### Statements -/

/-- What is reported about the end of a statement does not depend on the settings. -/
theorem Session.errors_finished_under (session : Session) (other : Settings) :
    (session.under other).finished.errors = session.finished.errors := by
  have eaten : sessionAfter (eat .semicolon (session.under other)) =
      (sessionAfter (eat .semicolon session)).under other := by
    rw [eat_run, eat_run, noting_under]
    change sessionAfter (if session.current.kind = .semicolon then _ else _) = _
    split <;> rfl
  unfold finished
  rw [eaten]
  generalize sessionAfter (eat .semicolon session) = behind
  dsimp only
  rw [noting_under]
  change (if behind.current.kind = .eof then _ else _ : Session).errors = _
  split <;> rfl

/-- The diagnostic about too many tokens is about a limit. -/
theorem Session.isLimit_of_tokenLimit? {session : Session} {error : Diagnostic}
    (h : session.tokenLimit? = some error) : error.isLimit = true := by
  obtain ⟨limit, -, passed⟩ := Option.bind_eq_some_iff.mp h
  obtain ⟨_, -, made⟩ := Option.bind_eq_some_iff.mp passed
  cases made
  rfl

/-- A parse that reached no limit was not ended. -/
theorem Session.not_halted_of_unlimited {session : Session} (running : session.halted = false)
    (short : session.tokenLimit? = none)
    (unlimited : ∀ error ∈ session.parse.errors, error.isLimit = false)
    (few : session.parse.errors.length < session.settings.maxErrors) :
    (sessionAfter (applyRule .query session)).halted = false := by
  have follows := (applyRule_moves .query session).follows
  have kept := errors_parse short
  cases halted : (sessionAfter (applyRule .query session)).halted with
  | false => rfl
  | true =>
    rcases follows.reason halted with earlier | ⟨error, hmem, limit⟩ | many
    · rw [running] at earlier
      cases earlier
    · rw [unlimited error (kept.subset hmem)] at limit
      cases limit
    · have longer := kept.length_le
      rw [follows.settings] at many
      omega

/-- One parse is cut off within another one.  All its diagnostics but a last one about a limit come
first among those of the other parse; such a last one comes without a tree.  If there is none, nor as
many diagnostics as allowed, nothing is cut off. -/
structure Outcome.CutOff (cut whole : Outcome) (maxErrors : Nat) : Prop where
  /-- The diagnostics that both parses report, and one about a limit. -/
  errors : ∃ common, common <+: whole.errors ∧
    (cut.errors = common ∨ ∃ limit : Diagnostic, limit.isLimit = true ∧
      cut.errors = common ++ [limit])
  /-- A limit leaves no tree. -/
  tree : (∃ error ∈ cut.errors, error.isLimit = true) → cut.tree = none
  /-- Without a limit, nothing is cut off. -/
  complete : (∀ error ∈ cut.errors, error.isLimit = false) →
    cut.errors.length < max 1 maxErrors → cut = whole

/-- A parse without diagnostics about limits is not cut off by itself. -/
theorem Outcome.CutOff.refl {outcome : Outcome} (maxErrors : Nat)
    (unlimited : ∀ error ∈ outcome.errors, error.isLimit = false) :
    outcome.CutOff outcome maxErrors where
  errors := ⟨outcome.errors, List.prefix_rfl, .inl rfl⟩
  tree := by
    rintro ⟨error, hmem, limit⟩
    rw [unlimited error hmem] at limit
    cases limit
  complete := fun _ _ => rfl

/-- A parse that has stopped is cut off within the other one. -/
theorem Session.StoppedWithin.cutOff {session : Session} {whole : Outcome}
    (h : session.StoppedWithin whole.errors) :
    Outcome.CutOff ⟨none, session.errors.toList⟩ whole session.settings.maxErrors := by
  obtain ⟨common, hprefix, ⟨limit, isLimit, errors⟩ | ⟨errors, many⟩⟩ := h
  · refine ⟨⟨common, hprefix, .inr ⟨limit, isLimit, errors⟩⟩, fun _ => rfl, fun none _ => ?_⟩
    have absent := none limit (by simp [errors])
    rw [isLimit] at absent
    cases absent
  · refine ⟨⟨common, hprefix, .inl errors⟩, fun _ => rfl, fun _ few => ?_⟩
    have length : session.errors.toList.length < max 1 session.settings.maxErrors := few
    rw [errors] at length
    exact absurd many (Nat.not_le_of_lt length)

/-- A parse under any limits is cut off within a parse that reaches none. -/
theorem Session.Comparable.cutOff_parse {session : Session} {other : Settings}
    (h : session.Comparable other)
    (unlimited : ∀ error ∈ (session.under other).parse.errors, error.isLimit = false)
    (few : (session.under other).parse.errors.length < other.maxErrors) :
    session.parse.CutOff (session.under other).parse session.settings.maxErrors := by
  have wholly : (session.under other).tokenLimit? = none := by
    cases long : (session.under other).tokenLimit? with
    | none => rfl
    | some error =>
      rw [parse, parseWith, long] at unlimited
      have absent := unlimited error List.mem_cons_self
      rw [isLimit_of_tokenLimit? long] at absent
      cases absent
  cases short : session.tokenLimit? with
  | some error =>
    have limit := isLimit_of_tokenLimit? short
    have cut : session.parse = ⟨none, [error]⟩ := by rw [parse, parseWith, short]
    rw [cut]
    refine ⟨⟨[], List.nil_prefix, .inr ⟨error, limit, rfl⟩⟩, fun _ => rfl, fun none _ => ?_⟩
    have absent := none error List.mem_cons_self
    rw [limit] at absent
    cases absent
  | none =>
    have runs : Limited other Eq (applyRule .query session)
        (applyRule .query (session.under other)) :=
      (apply_limited other true session.settings.maxDepth other.maxDepth .query).2 session h
    have running : (session.under other).halted = false := h.running
    have ended := not_halted_of_unlimited running wholly unlimited few
    have longer := errors_parse wholly
    have settings := (applyRule_moves .query session).follows.settings
    generalize tightly : applyRule .query session = result,
      loosely : applyRule .query (session.under other) = result' at runs ended longer settings
    cases runs with
    | @ok tree _ after same running =>
      subst same
      have equal : session.parse = (session.under other).parse := by
        rw [parse_of_ok short tightly, parse_of_ok wholly loosely, errors_finished_under]
        simp only [running, under, Bool.false_eq_true, ↓reduceIte]
      rw [equal]
      exact .refl _ unlimited
    | @error failure after mild running =>
      have equal : session.parse = (session.under other).parse := by
        rw [parse_of_error short tightly, parse_of_error wholly loosely]
        simp only [mild, Bool.false_eq_true, ↓reduceIte, errors_reporting]
        rfl
      rw [equal]
      exact .refl _ unlimited
    | ended halted =>
      rw [ended] at halted
      cases halted
    | @stopped failure after _ fatal stopped =>
      have cut := (stopped.mono longer).cutOff
      rw [parse_of_error short tightly, if_pos fatal, ← settings]
      exact cut

/-- The tokens of `SELECT * FROM t`. -/
def starTokens : List Token :=
  [⟨.keyword .SELECT, "SELECT", ⟨0, 6⟩, 1, 1⟩, ⟨.star, "*", ⟨7, 8⟩, 1, 8⟩,
   ⟨.keyword .FROM, "FROM", ⟨9, 13⟩, 1, 10⟩, ⟨.identifier, "t", ⟨14, 15⟩, 1, 15⟩]

end Adql
