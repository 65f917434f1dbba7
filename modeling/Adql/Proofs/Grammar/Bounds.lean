import Adql.Proofs.Grammar.Progress

/-!
# Sessions keep to their limits

Three limits end a parse: how deep rules nest, how many rules are applied, and how many diagnostics
there are.  They are looked at in different places and at different times, and once one of them is
passed, nothing is done any more.  `Session.WithinLimits` says what this comes to for a session, at
any moment.

A run shows only the session that it ends in.  To speak of the moments in between, the grammar is
run under observation: `applyWatched` hands the session over in front of and behind each count, each
rule and each body.  The depth, the active rules and the count change nowhere else, and diagnostics
are only added, so what holds at these moments holds at the ones between them.  An observer that
raises an alarm when a session is beyond its limits may then put any other session in its place: the
runs are the same, because no alarm is ever raised.

The result is `calls_within_limits`.
-/

namespace Adql

open Adql.Parser Adql.Grammar

/-! ### Sessions within their limits -/

namespace Session

/-- The session keeps to the limits that its settings set. -/
structure WithinLimits (session : Session) : Prop where
  /-- Rules are nested no deeper than allowed. -/
  depth : session.depth ≤ session.settings.maxDepth
  /-- Every active rule is a level of nesting. -/
  rules : session.rules.length ≤ session.depth
  /-- A budget is passed by less than the interval at which it is looked at. -/
  invocations : ∀ limit ∈ session.settings.ruleBudget,
    session.invocations ≤ budgetInterval * (limit / budgetInterval + 1)
  /-- There are no more diagnostics than allowed; one is always allowed. -/
  errors : session.errors.size ≤ max 1 session.settings.maxErrors
  /-- Only the last diagnostic is about a limit. -/
  ending : ∀ error ∈ session.errors.toList.dropLast, error.isLimit = false

instance (session : Session) : Decidable session.WithinLimits :=
  decidable_of_iff
    (session.depth ≤ session.settings.maxDepth ∧ session.rules.length ≤ session.depth ∧
      (∀ limit ∈ session.settings.ruleBudget,
        session.invocations ≤ budgetInterval * (limit / budgetInterval + 1)) ∧
      session.errors.size ≤ max 1 session.settings.maxErrors ∧
      ∀ error ∈ session.errors.toList.dropLast, error.isLimit = false)
    ⟨fun ⟨depth, rules, invocations, errors, ending⟩ => ⟨depth, rules, invocations, errors, ending⟩,
      fun h => ⟨h.depth, h.rules, h.invocations, h.errors, h.ending⟩⟩

/-- The parse goes on: none of its limits has been reached. -/
structure Running (session : Session) : Prop where
  /-- The parse was not ended. -/
  halted : session.halted = false
  /-- The budget is not spent. -/
  invocations : ∀ limit ∈ session.settings.ruleBudget,
    session.invocations < budgetInterval * (limit / budgetInterval + 1)
  /-- There may be more diagnostics. -/
  errors : session.errors.size < max 1 session.settings.maxErrors
  /-- No diagnostic is about a limit. -/
  ending : ∀ error ∈ session.errors.toList, error.isLimit = false

/-- Rules may be nested so many levels deeper. -/
structure Room (session : Session) (levels : Nat) : Prop where
  /-- The levels in use and the ones left are the ones allowed. -/
  depth : session.depth + levels = session.settings.maxDepth
  /-- Every active rule is a level of nesting. -/
  rules : session.rules.length ≤ session.depth

namespace Room

variable {session before after : Session} {levels : Nat}

/-- Afterwards there is as much room. -/
theorem of_follows (h : before.Room levels) (follows : before.Follows after) :
    after.Room levels where
  depth := by rw [follows.depth, follows.settings]; exact h.depth
  rules := by rw [follows.depth, follows.rules]; exact h.rules

/-- A rule takes one level. -/
theorem inside (h : session.Room (levels + 1)) (rule : Rule) :
    (Parser.inside rule session).Room levels where
  depth := by
    have depth := h.depth
    simp only [Parser.inside]
    omega
  rules := by
    have rules := h.rules
    have named : rule.name?.toList.length ≤ 1 := by cases rule.name? <;> simp
    simp only [Parser.inside, List.length_append]
    omega

end Room

namespace Running

variable {session : Session} {levels : Nat}

/-- A parse that goes on is within its limits. -/
theorem withinLimits (h : session.Running) (room : session.Room levels) : session.WithinLimits where
  depth := room.depth ▸ Nat.le_add_right _ _
  rules := room.rules
  invocations limit set := Nat.le_of_lt (h.invocations limit set)
  errors := Nat.le_of_lt h.errors
  ending error member := h.ending error (List.dropLast_subset _ member)

/-- A kind may be noted. -/
theorem noting (h : session.Running) (kind : TokenKind) : (session.noting kind).Running := by
  unfold Session.noting
  cases session.furthest with
  | none => exact { h with }
  | some furthest =>
    dsimp only
    split
    · exact h
    · split
      · exact { h with }
      · exact { h with }

/-- Several kinds may be noted. -/
theorem foldl_noting (h : session.Running) (kinds : List TokenKind) :
    (kinds.foldl Session.noting session).Running := by
  induction kinds generalizing session with
  | nil => exact h
  | cons kind kinds ih => exact ih (h.noting kind)

/-- Notes may be dropped. -/
theorem dropNotesAhead (h : session.Running) : (Parser.dropNotesAhead session).Running := by
  unfold Parser.dropNotesAhead
  cases session.furthest with
  | none => exact h
  | some furthest =>
    dsimp only
    split
    · exact { h with }
    · exact h

/-- A rule that failed may be closed. -/
theorem outsideFailed (h : session.Running) (rule : Rule) (start : Nat) :
    (Parser.outsideFailed rule start session).Running := by
  unfold Parser.outsideFailed
  split
  · exact { h with }
  · exact { h with }

/-- One more diagnostic is always allowed, and it may be about a limit. -/
theorem size_errors_push (h : session.Running) (error : Diagnostic) :
    (session.errors.push error).size ≤ max 1 session.settings.maxErrors := by
  rw [Array.size_push]
  exact h.errors

/-- If one more diagnostic is about a limit, it is the last one. -/
theorem ending_push (h : session.Running) (error : Diagnostic) :
    ∀ earlier ∈ (session.errors.push error).toList.dropLast, earlier.isLimit = false := by
  rw [Array.toList_push, List.dropLast_concat]
  exact h.ending

/-- A limit ends the parse within its limits. -/
theorem haltedBy (h : session.Running) (room : session.Room levels) (cause : DiagnosticCause) :
    (session.haltedBy cause).WithinLimits where
  depth := (h.withinLimits room).depth
  rules := room.rules
  invocations := (h.withinLimits room).invocations
  errors := h.size_errors_push _
  ending := h.ending_push _

/-- While the budget is not passed, one more application does not spend it. -/
theorem counted (h : session.Running) (budget : overBudget session.counted = none) :
    session.counted.Running := by
  refine { h with invocations := fun limit set => ?_ }
  have before : session.counted.invocations ≤ budgetInterval * (limit / budgetInterval + 1) :=
    h.invocations limit set
  have passed := Option.filter_eq_none_iff.mp budget limit set
  rw [Bool.and_eq_true, decide_eq_true_eq, decide_eq_true_eq] at passed
  -- a full interval would have been looked at, and the budget found to be passed
  refine Nat.lt_of_le_of_ne before fun full => passed ⟨?_, ?_⟩
  · rw [full, Nat.mul_mod_right]
  · rw [full]
    exact Nat.lt_mul_div_succ limit (by decide)

/-- The application that passes the budget ends the parse within its limits. -/
theorem exhausted (h : session.Running) (room : session.Room levels) (limit : Nat) :
    (session.counted.haltedBy (.budgetExhausted limit)).WithinLimits where
  depth := (h.withinLimits room).depth
  rules := room.rules
  invocations := h.invocations
  errors := h.size_errors_push _
  ending := h.ending_push _

/-- A report leaves the parse within its limits. -/
theorem reporting_withinLimits (h : session.Running) (room : session.Room levels)
    (failure : Failure) : (session.reporting failure).WithinLimits where
  depth := (h.withinLimits room).depth
  rules := room.rules
  invocations := (h.withinLimits room).invocations
  errors := h.size_errors_push _
  ending := h.ending_push _

/-- If a report does not end the parse, it goes on. -/
theorem reporting (h : session.Running) (failure : Failure)
    (halted : (session.reporting failure).halted = false) :
    (session.reporting failure).Running where
  halted := halted
  invocations := h.invocations
  errors := by
    simp only [Session.reporting, Bool.or_eq_false_iff, decide_eq_false_iff_not] at halted ⊢
    omega
  ending := by
    intro error member
    simp only [Session.reporting, Array.toList_push, List.mem_append, List.mem_singleton] at member
    rcases member with earlier | rfl
    · exact h.ending error earlier
    · rfl

end Running

end Session

/-! ### Runs -/

/-- Two runs end alike: the parse goes on, or a limit ended it with a failure for good. -/
inductive Keeps {α β : Type} (V : α → β → Prop) (before : Session) :
    EStateM.Result Failure Session α → EStateM.Result Failure Session β → Prop
  | ok {a b after} : V a b → before.Follows after → after.Running →
      Keeps V before (.ok a after) (.ok b after)
  | error {failure after} : failure.fatal = false → before.Follows after → after.Running →
      Keeps V before (.error failure after) (.error failure after)
  | ended {failure after} : failure.fatal = true → before.Follows after → after.halted = true →
      after.WithinLimits → Keeps V before (.error failure after) (.error failure after)

namespace Keeps

variable {α β γ δ : Type} {V : α → β → Prop} {W : γ → δ → Prop} {before between after : Session}
  {levels : Nat}

/-- A session in front of the one where the runs started will do for the start as well. -/
theorem of_follows {r : EStateM.Result Failure Session α} {r' : EStateM.Result Failure Session β}
    (h : before.Follows between) (runs : Keeps V between r r') : Keeps V before r r' := by
  cases runs with
  | ok value follows running => exact .ok value (h.trans follows) running
  | error mild follows running => exact .error mild (h.trans follows) running
  | ended fatal follows halted within => exact .ended fatal (h.trans follows) halted within

/-- Runs that yield the same value end alike. -/
theorem eq {r r' : EStateM.Result Failure Session α} (runs : Keeps Eq before r r') : r' = r := by
  cases runs with
  | ok same _ _ => rw [same]
  | error _ _ _ => rfl
  | ended _ _ _ _ => rfl

/-- Sequences end alike if their parts do. -/
theorem bind {p : Parser α} {q : Parser β} {f : α → Parser γ} {g : β → Parser δ}
    (h : Keeps V before (p before) (q before))
    (hf : ∀ a b after, V a b → before.Follows after → after.Running →
      Keeps W after (f a after) (g b after)) :
    Keeps W before ((p >>= f) before) ((q >>= g) before) := by
  change Keeps W before (EStateM.bind p f before) (EStateM.bind q g before)
  unfold EStateM.bind
  generalize p before = result, q before = result' at h
  cases h with
  | ok value follows running => exact of_follows follows (hf _ _ _ value follows running)
  | error mild follows running => exact .error mild follows running
  | ended fatal follows halted within => exact .ended fatal follows halted within

variable {p q p' q' : Parser α} {r : Parser β}

/-- What is tried ends alike. -/
theorem speculate (h : Keeps V before.trying (p before.trying) (r before.trying)) :
    Keeps V before (speculate p before) (speculate r before) := by
  cases run : p before.trying with
  | ok a after =>
    rw [run] at h
    rw [speculate_ok run]
    cases run' : r before.trying with
    | ok b after' =>
      rw [run'] at h
      rw [speculate_ok run']
      cases h with
      | ok value follows running => exact .ok value follows.settled { running with }
    | error failure after' => rw [run'] at h; cases h
  | error failure after =>
    rw [run] at h
    rw [speculate_error run]
    cases run' : r before.trying with
    | ok b after' => rw [run'] at h; cases h
    | error failure' after' =>
      rw [run'] at h
      rw [speculate_error run']
      cases h with
      | error mild follows running => exact .error mild follows.settled { running with }
      | ended fatal follows halted within =>
        exact .ended fatal follows.settled halted { within with }

/-- Alternatives end alike. -/
theorem alternative (h : Keeps V before.trying (p before.trying) (r before.trying)) :
    Keeps V before (alternative p before) (alternative r before) :=
  bind h.speculate fun _ _ after value _ running =>
    .ok value (.dropNotesAhead after) running.dropNotesAhead

/-- Choices end alike. -/
theorem firstOf (hp : Keeps Eq before.trying (p before.trying) (p' before.trying))
    (hq : ∀ after : Session, before.Follows after → after.Running →
      Keeps Eq after.trying (q after.trying) (q' after.trying)) :
    Keeps Eq before (firstOf p q before) (firstOf p' q' before) := by
  have tried := hp.alternative
  unfold Parser.firstOf
  generalize Parser.alternative p before = result, Parser.alternative p' before = result' at tried
  cases tried with
  | ok value follows running => exact .ok value follows running
  | @error failure after mild follows running =>
    simp only [mild, Bool.false_eq_true, ↓reduceIte]
    exact of_follows follows (hq after follows running).alternative
  | ended fatal follows halted within =>
    simp only [fatal, ↓reduceIte]
    exact .ended fatal follows halted within

/-- Optional parts end alike. -/
theorem optional (h : Keeps Eq before.trying (p before.trying) (p' before.trying)) :
    Keeps Eq before (optional p before) (optional p' before) := by
  have tried := h.speculate
  unfold Parser.optional
  generalize Parser.speculate p before = result, Parser.speculate p' before = result' at tried
  cases tried with
  | ok value follows running => exact .ok (congrArg some value) follows running
  | error mild follows running =>
    simp only [mild, Bool.false_eq_true, ↓reduceIte]
    exact .ok rfl follows running
  | ended fatal follows halted within =>
    simp only [fatal, ↓reduceIte]
    exact .ended fatal follows halted within

/-- A failure is reported and survived, or passed on, or its report ends the parse. -/
theorem recoverFrom {failure : Failure} (sync : List TokenKind) (mild : failure.fatal = false)
    (room : before.Room levels) (running : before.Running) :
    Keeps Eq before (recoverFrom failure sync before) (recoverFrom failure sync before) := by
  have reported : before.Follows (before.reporting failure) := .reporting before failure
  rw [recoverFrom_run]
  split
  · exact .error mild (.refl before) running
  · dsimp only
    split
    · next halted => exact .ended rfl reported halted (running.reporting_withinLimits room failure)
    · next goesOn =>
      have goesOn : (before.reporting failure).Running :=
        running.reporting failure (Bool.eq_false_iff.mpr goesOn)
      exact .ok rfl (reported.trans (.moveTo _ (Nat.le_add_right _ _))) { goesOn with }

/-- Parsers whose failures are survived end alike. -/
theorem orRecover (sync : List TokenKind) (ifFailed : α) (room : before.Room levels)
    (h : Keeps Eq before (p before) (p' before)) :
    Keeps Eq before (orRecover p sync ifFailed before) (orRecover p' sync ifFailed before) := by
  unfold Parser.orRecover
  generalize p before = result, p' before = result' at h
  cases h with
  | ok value follows running => exact .ok value follows running
  | @error failure after mild follows running =>
    refine of_follows follows (bind (recoverFrom sync mild (room.of_follows follows) running) ?_)
    exact fun _ _ after _ _ running => .ok rfl (.refl after) running
  | @ended failure after fatal follows halted within =>
    have passed : (do Parser.recoverFrom failure sync; pure ifFailed : Parser α) after =
        .error failure after := by
      change EStateM.bind (Parser.recoverFrom failure sync) _ after = _
      unfold EStateM.bind
      rw [recoverFrom_run, fatal, Bool.true_or]
      rfl
    dsimp only
    rw [passed]
    exact .ended fatal follows halted within

/-- Rules end alike if their bodies do. -/
theorem nested (rule : Rule) (room : before.Room levels)
    (h : Keeps V (inside rule before) (p (inside rule before)) (r (inside rule before))) :
    Keeps V before (nested rule p before) (nested rule r before) := by
  unfold Parser.nested
  generalize p (inside rule before) = result, r (inside rule before) = result' at h
  cases h with
  | ok value follows running => exact .ok value follows.outside { running with }
  | error mild follows running =>
    exact .error mild follows.outsideFailed (running.outsideFailed rule _)
  | @ended failure after fatal follows halted within =>
    have room := room.of_follows follows.outsideFailed
    refine .ended fatal follows.outsideFailed (by simpa using halted) ?_
    unfold Parser.outsideFailed at room ⊢
    split at room
    · next named =>
      rw [if_pos named]
      exact { within with depth := room.depth ▸ Nat.le_add_right _ _, rules := room.rules }
    · next unnamed =>
      rw [if_neg unnamed]
      exact { within with depth := room.depth ▸ Nat.le_add_right _ _, rules := room.rules }

/-- The budget ends both runs or none. -/
theorem countRule (rule : Rule) (room : before.Room levels) (running : before.Running) :
    Keeps Eq before (countRule rule before) (countRule rule before) := by
  unfold Grammar.countRule
  split
  · rw [countInvocation_run, running.halted]
    simp only [Bool.false_eq_true, ↓reduceIte]
    have counted : before.Follows before.counted := .counted before
    cases budget : overBudget before.counted with
    | some limit =>
      exact .ended rfl (counted.trans (.haltedBy _ _ rfl)) rfl (running.exhausted room limit)
    | none => exact .ok rfl counted (running.counted budget)
  · exact .ok rfl (.refl before) running

/-- A refusal to nest deeper ends both runs. -/
theorem refuseDepth (room : before.Room levels) (running : before.Running) :
    Keeps V before (refuseDepth before) (refuseDepth before) := by
  rw [refuseDepth_run, refuseDepth_run, running.halted]
  exact .ended rfl (.haltedBy before (.tooDeep before.settings.maxDepth) rfl) rfl
    (running.haltedBy room _)

end Keeps

/-! ### Observation -/

/-- Runs a parser under observation: the session is handed over in front of it and behind it. -/
def observed {α : Type} (watch : Session → Session) (parser : Parser α) : Parser α := fun before =>
  match parser (watch before) with
  | .ok value after => .ok value (watch after)
  | .error failure after => .error failure (watch after)

/-- Applies a rule under observation: whenever the depth, the active rules or the count have changed
or are about to, the session is handed over. -/
def applyWatched (watch : Session → Session) (lookahead : Bool) :
    Nat → (rule : Rule) → Parser rule.Result
  | 0, rule => observed watch do
    observed watch (countRule rule)
    refuseDepth
  | allowance + 1, rule => observed watch do
    observed watch (countRule rule)
    nested rule (observed watch (body lookahead (applyWatched watch lookahead allowance) rule))

/-- Applies a rule under observation, as deep as the settings allow. -/
def applyRuleWatched (watch : Session → Session) (rule : Rule) : Parser rule.Result :=
    fun session =>
  applyWatched watch true session.settings.maxDepth rule session

/-- The session after calls of rules under observation. -/
def Session.callingWatched (watch : Session → Session) (session : Session)
    (calls : List EntryPoint) :
    Session :=
  calls.foldl (fun session call => sessionAfter (applyRuleWatched watch call.rule session)) session

/-- An observer that puts another session in the place of one beyond its limits. -/
def Session.guarded (alarm : Session → Session) (session : Session) : Session :=
  if session.WithinLimits then session else alarm session

/-- No alarm is raised about a session within its limits. -/
theorem Session.WithinLimits.guarded {session : Session} (h : session.WithinLimits)
    (alarm : Session → Session) : session.guarded alarm = session :=
  if_pos h

/-- No alarm is raised in front of a run that fails at once. -/
theorem Session.WithinLimits.observed_error {α : Type} {session : Session} {p : Parser α}
    {failure : Failure} (h : session.WithinLimits) (alarm : Session → Session)
    (run : p session = .error failure session) :
    observed (Session.guarded alarm) p session = .error failure session := by
  rw [observed, h.guarded, run]
  dsimp only
  rw [h.guarded]

/-- No alarm is raised in front of a run and behind it. -/
theorem Keeps.observed {α β : Type} {V : α → β → Prop} {before : Session} {levels : Nat}
    {p : Parser α} {q : Parser β} (alarm : Session → Session) (room : before.Room levels)
    (running : before.Running) (h : Keeps V before (p before) (q before)) :
    Keeps V before (p before) (observed (Session.guarded alarm) q before) := by
  unfold Adql.observed
  rw [(running.withinLimits room).guarded]
  generalize p before = result, q before = result' at h
  cases h with
  | ok value follows running =>
    dsimp only
    rw [(running.withinLimits (room.of_follows follows)).guarded]
    exact .ok value follows running
  | error mild follows running =>
    dsimp only
    rw [(running.withinLimits (room.of_follows follows)).guarded]
    exact .error mild follows running
  | ended fatal follows halted within =>
    dsimp only
    rw [within.guarded]
    exact .ended fatal follows halted within

/-! ### The grammar -/

/-- Keeping to the limits with so many levels of nesting left is kept by the ways to combine
parsers. -/
def keepingParsers (levels : Nat) : NotingRelation where
  rel V p q := ∀ before : Session, before.Room levels → before.Running →
    Keeps V before (p before) (q before)
  rel_pure value := fun before _ running => .ok value (.refl before) running
  rel_bind hp hf := fun before room running =>
    (hp before room running).bind fun a b after value follows running =>
      hf a b value after (room.of_follows follows) running
  rel_currentKind := fun before _ running => .ok rfl (.refl before) running
  rel_nextKind := fun before _ running => .ok rfl (.refl before) running
  rel_kindsAhead := fun before _ running => .ok rfl (.refl before) running
  rel_remaining := fun before _ running => .ok rfl (.refl before) running
  rel_precedence := fun before _ running => .ok rfl (.refl before) running
  rel_advance := fun before _ running => .ok trivial (.advance before) { running with }
  rel_noteAll kinds := fun before _ running =>
    .ok rfl (.foldl_noting kinds before) (running.foldl_noting kinds)
  rel_fail := fun before _ running => .error before.failure_fatal (.refl before) running
  rel_firstOf hp hq := fun before room running =>
    .firstOf (hp before.trying { room with } { running with }) fun after follows running =>
      have room := room.of_follows follows
      hq after.trying { room with } { running with }
  rel_optional hp := fun before room running =>
    .optional (hp before.trying { room with } { running with })
  rel_orRecover sync ifFailed hp := fun before room running =>
    .orRecover sync ifFailed room (hp before room running)

/-- Keeping to the limits is kept by the grammar. -/
def keeping (levels : Nat) : Congruence :=
  (keepingParsers levels).toCongruence
    (fun before _ running => .ok rfl (.refl before) running)
    (fun before _ running => .ok rfl (.advance before) { running with })
    (fun before _ running => .ok rfl (.refl before) running)

/-- No alarm is raised while a rule is applied. -/
theorem apply_keeping (alarm : Session → Session) (lookahead : Bool) (allowance : Nat)
    (rule : Rule) :
    (keeping allowance).rel Eq (apply lookahead allowance rule)
      (applyWatched (Session.guarded alarm) lookahead allowance rule) := by
  induction allowance generalizing rule with
  | zero =>
    intro before room running
    refine .observed alarm room running ?_
    refine (Keeps.observed alarm room running (.countRule rule room running)).bind ?_
    exact fun _ _ after _ follows running => .refuseDepth (room.of_follows follows) running
  | succ allowance ih =>
    intro before room running
    refine .observed alarm room running ?_
    refine (Keeps.observed alarm room running (.countRule rule room running)).bind ?_
    intro _ _ after _ follows running
    have room := room.of_follows follows
    have within := room.inside rule
    exact .nested rule room (.observed alarm within { running with }
      ((keeping allowance).rel_body ih lookahead rule _ within { running with }))

/-! ### Calls from outside -/

namespace Session

/-- The session after calls comes after the one in front of them. -/
theorem follows_calling (session : Session) (calls : List EntryPoint) :
    session.Follows (session.calling calls) := by
  induction calls generalizing session with
  | nil => exact .refl session
  | cons call calls ih => exact (applyRule_moves call.rule session).follows.trans (ih _)

/-- Between calls of rules: nothing is open, and the parse goes on or was ended within its limits.
-/
structure Idle (session : Session) : Prop where
  /-- No rule is active. -/
  room : session.Room session.settings.maxDepth
  /-- The parse goes on or was ended. -/
  status : session.Running ∨ session.halted = true ∧ session.WithinLimits

namespace Idle

variable {session : Session}

/-- Between calls the session is within its limits. -/
theorem withinLimits (h : session.Idle) : session.WithinLimits := by
  rcases h.status with running | ⟨_, within⟩
  · exact running.withinLimits h.room
  · exact within

/-- At first no rule is active, and nothing has been counted. -/
theorem ofTokens (tokens : List Token) (settings : Settings) :
    (Session.ofTokens tokens settings).Idle where
  room := ⟨Nat.zero_add _, Nat.le_refl 0⟩
  status := .inl {
    halted := rfl
    invocations := fun limit _ => Nat.mul_pos (by decide) (Nat.succ_pos _)
    errors := Nat.lt_of_lt_of_le Nat.zero_lt_one (Nat.le_max_left _ _)
    ending := nofun }

end Idle

section

variable {session : Session} (halted : session.halted = true) {rule : Rule}
  (named : rule.name?.isSome = true)

include halted named

/-- A parse that was ended counts no application. -/
theorem countRule_of_halted : countRule rule session = .error session.fatality session := by
  rw [countRule, if_pos named, countInvocation_run, if_pos halted]

/-- A parse that was ended applies no rules: the session stays as it is. -/
theorem applyRule_of_halted : applyRule rule session = .error session.fatality session := by
  have counted := countRule_of_halted halted named
  change apply true session.settings.maxDepth rule session = _
  cases session.settings.maxDepth with
  | zero => exact bind_run_error.mpr (.inl counted)
  | succ allowance => exact bind_run_error.mpr (.inl counted)

/-- No alarm is raised in a parse that was ended. -/
theorem applyRuleWatched_of_halted (within : session.WithinLimits) (alarm : Session → Session) :
    applyRuleWatched (guarded alarm) rule session = .error session.fatality session := by
  have counted := within.observed_error alarm (countRule_of_halted halted named)
  rw [applyRuleWatched]
  cases session.settings.maxDepth with
  | zero => exact within.observed_error alarm (bind_run_error.mpr (.inl counted))
  | succ allowance => exact within.observed_error alarm (bind_run_error.mpr (.inl counted))

end

namespace Idle

variable {session : Session}

/-- Where a call ends, nothing is open, and the parse goes on or was ended. -/
theorem of_keeps {α : Type} {r r' : EStateM.Result Failure Session α} (h : session.Idle)
    (runs : Keeps Eq session r r') : (sessionAfter r).Idle := by
  cases runs with
  | ok _ follows running => exact ⟨follows.settings ▸ h.room.of_follows follows, .inl running⟩
  | error _ follows running => exact ⟨follows.settings ▸ h.room.of_follows follows, .inl running⟩
  | ended _ follows halted within =>
    exact ⟨follows.settings ▸ h.room.of_follows follows, .inr ⟨halted, within⟩⟩

/-- No alarm is raised in a call, and where it ends, nothing is open. -/
theorem call (h : session.Idle) (alarm : Session → Session) (call : EntryPoint) :
    applyRuleWatched (guarded alarm) call.rule session = applyRule call.rule session ∧
      (sessionAfter (applyRule call.rule session)).Idle := by
  rcases h.status with running | ⟨halted, within⟩
  · have runs : Keeps Eq session (applyRule call.rule session)
        (applyRuleWatched (guarded alarm) call.rule session) :=
      apply_keeping alarm true session.settings.maxDepth call.rule session h.room running
    exact ⟨runs.eq, h.of_keeps runs⟩
  · rw [applyRule_of_halted halted call.rule_named,
      applyRuleWatched_of_halted halted call.rule_named within alarm]
    exact ⟨rfl, h⟩

/-- No alarm is raised in calls, and where they end, nothing is open. -/
theorem calling (h : session.Idle) (alarm : Session → Session) (calls : List EntryPoint) :
    session.callingWatched (guarded alarm) calls = session.calling calls ∧
      (session.calling calls).Idle := by
  induction calls generalizing session with
  | nil => exact ⟨rfl, h⟩
  | cons call calls ih =>
    obtain ⟨same, idle⟩ := h.call alarm call
    have step : session.callingWatched (guarded alarm) (call :: calls) =
        (sessionAfter (applyRule call.rule session)).callingWatched (guarded alarm) calls := by
      rw [← same]
      rfl
    rw [step]
    exact ih idle

/-- No alarm is raised in the parse of a statement. -/
theorem parse_watched (h : session.Idle) (alarm : Session → Session) :
    session.parseWith (applyRuleWatched (guarded alarm) .query) = session.parse := by
  have same : applyRuleWatched (guarded alarm) .query session = applyRule .query session :=
    (h.call alarm .query).1
  rw [parse, parseWith, parseWith, parseStatement, parseStatement, same]

end Idle

/-- The end of a statement leaves the parse within its limits. -/
theorem Running.finished {session : Session} {levels : Nat} (h : session.Running)
    (room : session.Room levels) : session.finished.WithinLimits := by
  have eaten : (sessionAfter (eat .semicolon session)).Running := by
    rw [eat_run]
    split
    · exact { h with }
    · exact h.noting _
  have room : (sessionAfter (eat .semicolon session)).Room levels :=
    room.of_follows ((moving.rel_eat .semicolon).1 session).follows
  unfold Session.finished
  dsimp only
  split
  · exact eaten.withinLimits room
  · exact (eaten.noting .eof).reporting_withinLimits (room.of_follows (.noting _ _)) _

/-- The diagnostics of a parse are no more than allowed, and only the last one is about a limit. -/
theorem Idle.parse {session : Session} (h : session.Idle) :
    session.parse.errors.length ≤ max 1 session.settings.maxErrors ∧
      ∀ error ∈ session.parse.errors.dropLast, error.isLimit = false := by
  have bounds {after : Session} (follows : session.Follows after) (within : after.WithinLimits) :
      after.errors.toList.length ≤ max 1 session.settings.maxErrors ∧
        ∀ error ∈ after.errors.toList.dropLast, error.isLimit = false :=
    ⟨follows.settings ▸ within.errors, within.ending⟩
  cases short : session.tokenLimit? with
  | some error =>
    rw [Session.parse, parseWith, short]
    exact ⟨Nat.le_max_left _ _, List.forall_mem_nil _⟩
  | none =>
    have moves := (applyRule_moves .query session).follows
    rcases h.status with running | ⟨halted, within⟩
    · have runs : Keeps Eq session (applyRule .query session)
          (applyRuleWatched (guarded id) .query session) :=
        apply_keeping id true session.settings.maxDepth .query session h.room running
      generalize run : applyRule .query session = result,
        applyRuleWatched (guarded id) .query session = result' at runs moves
      cases runs with
      | @ok tree _ after _ _ running =>
        rw [parse_of_ok short run, running.halted]
        exact bounds (moves.trans (.finished after)) (running.finished (h.room.of_follows moves))
      | @error failure after mild _ running =>
        rw [parse_of_error short run, mild]
        exact bounds (moves.trans (.reporting after failure))
          (running.reporting_withinLimits (h.room.of_follows moves) failure)
      | ended fatal _ _ within =>
        rw [parse_of_error short run, fatal]
        exact bounds moves within
    · rw [parse_of_error short (applyRule_of_halted halted rfl)]
      exact bounds (.refl session) within

end Session

end Adql
