import Adql.Proofs.Grammar.Congruence
import Adql.Proofs.Grammar.Run

/-!
# What a run does to the session

Whatever a parser does, the tokens and the settings stay, the cursor never goes back, diagnostics
are only added, and what was opened on the way (levels of nesting, active rules, queries,
alternatives being tried) is closed again.  `Session.Follows` says this of the sessions before and
after a run.  It also says why a parse ended: a limit was passed, or there are enough errors.

`apply_together` proves it for every rule.  A rule with a name does more: where it fails, the cursor
is back where the rule began (`position_apply_error`).  Together they give `failure_restores`, which
is about sequences of calls from outside.
-/

namespace Adql

open Adql.Parser Adql.Grammar

namespace Session

/-- Has the session a reason to have ended: a limit that was passed, or enough errors? -/
def Exhausted (session : Session) : Prop :=
  (∃ error ∈ session.errors.toList, error.isLimit = true) ∨
    max 1 session.settings.maxErrors ≤ session.errors.toList.length

/-- What is opened and closed again is the same in two sessions. -/
structure Balanced (before after : Session) : Prop where
  /-- The levels of nesting. -/
  depth : after.depth = before.depth
  /-- The active rules. -/
  rules : after.rules = before.rules
  /-- The alternatives that are being tried. -/
  speculation : after.speculation = before.speculation
  /-- The open queries. -/
  queryDepth : after.queryDepth = before.queryDepth

/-- A session comes after another one in a run that is over. -/
structure Follows (before after : Session) : Prop extends Balanced before after where
  /-- The tokens are the same. -/
  tokens : after.cursor.tokens = before.cursor.tokens
  /-- The end marker is the same. -/
  final : after.cursor.final = before.cursor.final
  /-- The settings are the same. -/
  settings : after.settings = before.settings
  /-- The cursor has not gone back. -/
  position : before.cursor.position ≤ after.cursor.position
  /-- No diagnostic is lost. -/
  errors : before.errors.toList <+: after.errors.toList
  /-- A parse that was ended stays so. -/
  halted : before.halted = true → after.halted = true
  /-- A parse is ended for a reason. -/
  reason : after.halted = true → before.halted = true ∨ after.Exhausted

/-- More diagnostics do not take away the reason to end. -/
theorem Exhausted.mono {before after : Session} (h : before.Exhausted)
    (settings : after.settings = before.settings)
    (errors : before.errors.toList <+: after.errors.toList) : after.Exhausted := by
  rcases h with ⟨error, hmem, hlimit⟩ | hsize
  · exact .inl ⟨error, errors.subset hmem, hlimit⟩
  · refine .inr ?_
    rw [settings]
    exact Nat.le_trans hsize errors.length_le

/-- A session that is exhausted has diagnostics. -/
theorem Exhausted.errors_ne_nil {session : Session} (h : session.Exhausted) :
    session.errors.toList ≠ [] := by
  rcases h with ⟨error, hmem, -⟩ | hsize
  · exact List.ne_nil_of_mem hmem
  · exact List.ne_nil_of_length_pos (by omega)

namespace Follows

variable {first second third : Session}

/-- A session comes after itself. -/
theorem refl (session : Session) : session.Follows session where
  depth := rfl
  rules := rfl
  speculation := rfl
  queryDepth := rfl
  tokens := rfl
  final := rfl
  settings := rfl
  position := Nat.le_refl _
  errors := List.prefix_rfl
  halted := id
  reason := .inl

/-- What comes after a later session comes after the earlier one. -/
theorem trans (h : first.Follows second) (h' : second.Follows third) : first.Follows third where
  depth := h'.depth.trans h.depth
  rules := h'.rules.trans h.rules
  speculation := h'.speculation.trans h.speculation
  queryDepth := h'.queryDepth.trans h.queryDepth
  tokens := h'.tokens.trans h.tokens
  final := h'.final.trans h.final
  settings := h'.settings.trans h.settings
  position := Nat.le_trans h.position h'.position
  errors := h.errors.trans h'.errors
  halted := h'.halted ∘ h.halted
  reason := by
    intro halted
    rcases h'.reason halted with hsecond | hreason
    · rcases h.reason hsecond with hfirst | hreason
      · exact .inl hfirst
      · exact .inr (hreason.mono h'.settings h'.errors)
    · exact .inr hreason

/-- There are no more tokens to come later. -/
theorem remaining_le (h : first.Follows second) :
    second.cursor.remaining ≤ first.cursor.remaining := by
  have position := h.position
  unfold TokenCursor.remaining
  rw [h.tokens]
  omega

/-- A session with other notes comes after the session. -/
theorem with_furthest (session : Session) (furthest : Option Furthest) :
    session.Follows { session with furthest := furthest } :=
  { refl session with }

/-- A session in which one more application is counted comes after the session. -/
theorem counted (session : Session) : session.Follows session.counted :=
  { refl session with }

/-- A session whose cursor moves on comes after the session. -/
theorem moveTo (session : Session) {position : Nat} (h : session.cursor.position ≤ position) :
    session.Follows { session with cursor := session.cursor.moveTo position } :=
  { refl session with position := h }

/-- A session that moves behind a token comes after the session. -/
theorem advance (session : Session) :
    session.Follows { session with cursor := session.cursor.advance } := by
  unfold TokenCursor.advance
  split
  · exact moveTo session (Nat.le_succ _)
  · exact refl session

/-- A session that looks for a kind in vain comes after the session. -/
theorem noting (session : Session) (kind : TokenKind) : session.Follows (session.noting kind) := by
  unfold Session.noting
  cases session.furthest with
  | none => exact with_furthest session _
  | some furthest =>
    dsimp only
    split
    · exact refl session
    · split
      · exact with_furthest session _
      · exact with_furthest session _

/-- A session that looks for several kinds in vain comes after the session. -/
theorem foldl_noting (kinds : List TokenKind) (session : Session) :
    session.Follows (kinds.foldl Session.noting session) := by
  induction kinds generalizing session with
  | nil => exact refl session
  | cons kind kinds ih => exact (noting session kind).trans (ih _)

/-- A session that a limit ends comes after the session. -/
theorem haltedBy (session : Session) (cause : DiagnosticCause)
    (limit : (Diagnostic.atToken session.current cause).isLimit = true) :
    session.Follows (session.haltedBy cause) :=
  { refl session with
    errors := by simp [Session.haltedBy]
    halted := fun _ => rfl
    reason := fun _ => .inr <| .inl ⟨_, by simp [Session.haltedBy], limit⟩ }

/-- A session that reports a failure comes after the session. -/
theorem reporting (session : Session) (failure : Failure) :
    session.Follows (session.reporting failure) :=
  { refl session with
    errors := by simp [Session.reporting]
    halted := fun halted => by simp [Session.reporting, halted]
    reason := by
      intro halted
      simp only [Session.reporting, Bool.or_eq_true, decide_eq_true_eq] at halted
      refine halted.imp id fun enough => .inr ?_
      simp only [Session.reporting, Array.size_push, Array.length_toList] at enough ⊢
      omega }

/-- A session that drops notes comes after the session. -/
theorem dropNotesAhead (session : Session) : session.Follows (dropNotesAhead session) := by
  unfold Parser.dropNotesAhead
  cases session.furthest with
  | none => exact refl session
  | some furthest =>
    dsimp only
    split
    · exact with_furthest session none
    · exact refl session

/-- What comes after the session inside a rule comes after the session once the rule is closed. -/
theorem outside {rule : Rule} {before after : Session} (h : (inside rule before).Follows after) :
    before.Follows (outside rule after) where
  depth := by simp only [Parser.outside, h.depth, inside, Nat.add_sub_cancel]
  rules := by simp only [Parser.outside, h.rules, inside, List.drop_left]
  speculation := h.speculation
  queryDepth := by
    simp only [Parser.outside, h.queryDepth, inside]
    cases rule.opensQuery with
    | true => exact Nat.add_sub_cancel _ _
    | false => rfl
  tokens := h.tokens
  final := h.final
  settings := h.settings
  position := h.position
  errors := h.errors
  halted := h.halted
  reason := h.reason

/-- The same holds if the rule failed: it does not go back farther than to where it began. -/
theorem outsideFailed {rule : Rule} {before after : Session}
    (h : (inside rule before).Follows after) :
    before.Follows (outsideFailed rule before.cursor.position after) := by
  unfold Parser.outsideFailed
  split
  · have back : (inside rule before).Follows
        { after with cursor := after.cursor.moveTo before.cursor.position } :=
      { h with position := Nat.le_refl _ }
    exact outside back
  · exact outside h

/-- What comes after the session in an alternative comes after the session once the alternative is
done. -/
theorem settled {before after : Session} (h : before.trying.Follows after) : before.Follows after.settled :=
  { h with
    depth := h.depth
    speculation := by simp only [Session.settled, h.speculation, trying, Nat.add_sub_cancel] }

end Follows

end Session

open Session

/-! ### Runs -/

/-- A run ends behind the session that it started from, and the value that it yields meets a
condition.  It fails for good only if the parse was ended. -/
inductive Moves {α : Type} (P : α → Prop) (before : Session) :
    EStateM.Result Failure Session α → Prop
  | ok {a after} : P a → before.Follows after → Moves P before (.ok a after)
  | error {failure after} : before.Follows after → (failure.fatal = true → after.halted = true) →
      Moves P before (.error failure after)

namespace Moves

variable {α β : Type} {P : α → Prop} {Q : β → Prop} {before after : Session}

/-- A run ends behind the session that it started from. -/
theorem follows {r : EStateM.Result Failure Session α} (h : Moves P before r) :
    before.Follows (sessionAfter r) := by
  cases h with
  | ok _ follows => exact follows
  | error follows _ => exact follows

/-- A run that succeeds ends behind the session that it started from. -/
theorem follows_ok {r : EStateM.Result Failure Session α} {a : α} (h : Moves P before r)
    (found : r = .ok a after) : before.Follows after := by
  subst found
  exact h.follows

/-- A run that fails ends behind the session that it started from. -/
theorem follows_error {r : EStateM.Result Failure Session α} {failure : Failure}
    (h : Moves P before r) (found : r = .error failure after) : before.Follows after := by
  subst found
  exact h.follows

/-- A value that a run yields meets the condition. -/
theorem value {r : EStateM.Result Failure Session α} {a : α} (h : Moves P before r)
    (found : r = .ok a after) : P a := by
  subst found
  cases h with
  | ok value _ => exact value

/-- A value that a run yields may meet another condition. -/
theorem mono {P' : α → Prop} {r : EStateM.Result Failure Session α} (h : Moves P before r)
    (hvalue : ∀ a after, r = .ok a after → P a → P' a) : Moves P' before r := by
  cases h with
  | ok value follows => exact .ok (hvalue _ _ rfl value) follows
  | error follows fatal => exact .error follows fatal

/-- A session in front of the one where a run started will do for the start as well. -/
theorem of_follows {r : EStateM.Result Failure Session α} (h : before.Follows after)
    (hr : Moves P after r) : Moves P before r := by
  cases hr with
  | ok value follows => exact .ok value (h.trans follows)
  | error follows fatal => exact .error (h.trans follows) fatal

/-- A sequence moves on from wherever its first part ends. -/
theorem bind {p : Parser α} {f : α → Parser β} (h : Moves P before (p before))
    (hf : ∀ a after, P a → Moves Q after (f a after)) : Moves Q before ((p >>= f) before) := by
  change Moves Q before (EStateM.bind p f before)
  unfold EStateM.bind
  generalize p before = r at h ⊢
  cases h with
  | ok value follows => exact of_follows follows (hf _ _ value)
  | error follows fatal => exact .error follows fatal

variable {p q : Parser α}

/-- An alternative moves like the parser that is being tried. -/
theorem speculate (h : ∀ before, Moves P before (p before)) :
    Moves P before (speculate p before) := by
  have hrun := h before.trying
  cases hresult : p before.trying with
  | ok a after =>
    rw [hresult] at hrun
    rw [speculate_ok hresult]
    cases hrun with
    | ok value follows => exact .ok value follows.settled
  | error failure after =>
    rw [hresult] at hrun
    rw [speculate_error hresult]
    cases hrun with
    | error follows fatal => exact .error follows.settled fatal

/-- An alternative of a choice moves like the parser that is being tried. -/
theorem alternative (h : ∀ before, Moves P before (p before)) :
    Moves P before (alternative p before) :=
  bind (speculate h) fun _ after value => .ok value (.dropNotesAhead after)

/-- The second alternative of a choice is tried behind the first one. -/
theorem follows_firstOf (hq : ∀ before, Moves P before (q before)) :
    (sessionAfter (Parser.alternative p before)).Follows
      (sessionAfter (firstOf p q before)) := by
  unfold Parser.firstOf
  cases Parser.alternative p before with
  | ok a after => exact .refl after
  | error failure after =>
    dsimp only
    split
    · exact .refl after
    · exact (alternative hq).follows

/-- A choice moves like its alternatives. -/
theorem firstOf (hp : ∀ before, Moves P before (p before))
    (hq : ∀ before, Moves P before (q before)) : Moves P before (firstOf p q before) := by
  have hrun : Moves P before (Parser.alternative p before) := alternative hp
  unfold Parser.firstOf
  generalize Parser.alternative p before = r at hrun ⊢
  cases hrun with
  | ok value follows => exact .ok value follows
  | @error failure after follows fatal =>
    dsimp only
    split
    · exact .error follows fatal
    · exact of_follows follows (alternative hq)

/-- An optional part moves like the parser that is being tried. -/
theorem optional {Q : Option α → Prop} (h : ∀ before, Moves P before (p before))
    (hQ : ∀ a?, Q a?) : Moves Q before (optional p before) := by
  have hrun : Moves P before (Parser.speculate p before) := speculate h
  unfold Parser.optional
  generalize Parser.speculate p before = r at hrun ⊢
  cases hrun with
  | ok value follows => exact .ok (hQ _) follows
  | @error failure after follows fatal =>
    dsimp only
    split
    · exact .error follows fatal
    · exact .ok (hQ _) follows

/-- Recovery from a failure moves forward. -/
theorem recoverFrom {failure : Failure} (sync : List TokenKind)
    (fatal : failure.fatal = true → before.halted = true) :
    Moves (fun _ => True) before (recoverFrom failure sync before) := by
  rw [recoverFrom_run]
  have reported := Follows.reporting before failure
  split
  · exact .error (.refl before) fatal
  · dsimp only
    split
    · exact .error reported fun _ => ‹_›
    · exact .ok trivial (reported.trans (.moveTo _ (Nat.le_add_right _ _)))

/-- Recovery goes on behind the failure. -/
theorem follows_orRecover (h : Moves P before (p before)) (sync : List TokenKind) (ifFailed : α) :
    (sessionAfter (p before)).Follows (sessionAfter (orRecover p sync ifFailed before)) := by
  unfold Parser.orRecover
  generalize p before = r at h ⊢
  cases h with
  | @ok _ after _ _ => exact .refl after
  | @error failure after follows fatal =>
    exact (bind (Q := fun _ => True) (f := fun _ => pure ifFailed) (recoverFrom sync fatal)
      fun _ session _ => .ok trivial (.refl session)).follows

/-- A parser whose failures are survived moves forward. -/
theorem orRecover {ifFailed : α} (h : Moves P before (p before)) (sync : List TokenKind)
    (hfailed : P ifFailed) : Moves P before (orRecover p sync ifFailed before) := by
  unfold Parser.orRecover
  generalize p before = r at h ⊢
  cases h with
  | ok value follows => exact .ok value follows
  | error follows fatal =>
    exact of_follows follows <|
      bind (recoverFrom sync fatal) fun _ session _ => .ok hfailed (.refl session)

/-- A rule moves like its body. -/
theorem nested (rule : Rule) (h : ∀ before, Moves P before (p before)) :
    Moves P before (nested rule p before) := by
  have hrun := h (inside rule before)
  unfold Parser.nested
  generalize p _ = result at hrun ⊢
  cases hrun with
  | ok value follows => exact .ok value follows.outside
  | error follows fatal =>
    refine .error follows.outsideFailed fun h => ?_
    unfold Parser.outsideFailed
    split
    · exact fatal h
    · exact fatal h

/-- Counting applications moves forward. -/
theorem countRule (rule : Rule) : Moves (fun _ => True) before (countRule rule before) := by
  unfold Grammar.countRule
  split
  · rw [countInvocation_run]
    have counted := Follows.counted before
    split
    · exact .error (.refl before) fun _ => ‹_›
    · split
      · exact .error (counted.trans (.haltedBy _ _ rfl)) fun _ => rfl
      · exact .ok trivial counted
  · exact .ok trivial (.refl before)

/-- A refusal to nest deeper moves forward. -/
theorem refuseDepth : Moves P before (refuseDepth before) := by
  rw [refuseDepth_run]
  dsimp only
  split
  · exact .error (.refl before) fun _ => ‹_›
  · exact .error (.haltedBy before _ rfl) fun _ => rfl

end Moves

/-! ### The grammar -/

/-- Both parsers move forward, and what one of them yields has a partner that the other one may
yield. -/
def movingParsers : NotingRelation where
  rel V p q := (∀ before, Moves (fun a => ∃ b, V a b) before (p before)) ∧
    ∀ before, Moves (fun b => ∃ a, V a b) before (q before)
  rel_pure value :=
    ⟨fun before => .ok ⟨_, value⟩ (.refl before), fun before => .ok ⟨_, value⟩ (.refl before)⟩
  rel_bind hp hf :=
    ⟨fun before => .bind (hp.1 before) fun a after ⟨b, value⟩ => (hf a b value).1 after,
      fun before => .bind (hp.2 before) fun b after ⟨a, value⟩ => (hf a b value).2 after⟩
  rel_currentKind :=
    ⟨fun before => .ok ⟨_, rfl⟩ (.refl before), fun before => .ok ⟨_, rfl⟩ (.refl before)⟩
  rel_nextKind :=
    ⟨fun before => .ok ⟨_, rfl⟩ (.refl before), fun before => .ok ⟨_, rfl⟩ (.refl before)⟩
  rel_kindsAhead :=
    ⟨fun before => .ok ⟨_, rfl⟩ (.refl before), fun before => .ok ⟨_, rfl⟩ (.refl before)⟩
  rel_remaining :=
    ⟨fun before => .ok ⟨_, rfl⟩ (.refl before), fun before => .ok ⟨_, rfl⟩ (.refl before)⟩
  rel_precedence :=
    ⟨fun before => .ok ⟨_, rfl⟩ (.refl before), fun before => .ok ⟨_, rfl⟩ (.refl before)⟩
  rel_advance :=
    ⟨fun before => .ok ⟨before.current, trivial⟩ (.advance before),
      fun before => .ok ⟨before.current, trivial⟩ (.advance before)⟩
  rel_noteAll kinds :=
    ⟨fun before => .ok ⟨_, rfl⟩ (.foldl_noting kinds before),
      fun before => .ok ⟨_, rfl⟩ (.foldl_noting kinds before)⟩
  rel_fail :=
    ⟨fun before => .error (.refl before) (by simp), fun before => .error (.refl before) (by simp)⟩
  rel_firstOf hp hq := ⟨fun _ => .firstOf hp.1 hq.1, fun _ => .firstOf hp.2 hq.2⟩
  rel_optional hp :=
    ⟨fun _ => .optional hp.1 fun a? => ⟨a?, rfl⟩, fun _ => .optional hp.2 fun a? => ⟨a?, rfl⟩⟩
  rel_orRecover sync ifFailed hp :=
    ⟨fun before => .orRecover (hp.1 before) sync ⟨ifFailed, rfl⟩,
      fun before => .orRecover (hp.2 before) sync ⟨ifFailed, rfl⟩⟩

/-- Reading the current token moves forward. -/
theorem moving_current : movingParsers.rel Eq current current :=
  ⟨fun before => .ok ⟨_, rfl⟩ (.refl before), fun before => .ok ⟨_, rfl⟩ (.refl before)⟩

/-- Going behind the current token moves forward. -/
theorem moving_advance : movingParsers.rel Eq advance advance :=
  ⟨fun before => .ok ⟨_, rfl⟩ (.advance before), fun before => .ok ⟨_, rfl⟩ (.advance before)⟩

/-- Asking whether recovery is possible moves forward. -/
theorem moving_canRecover : movingParsers.rel Eq canRecover canRecover :=
  ⟨fun before => .ok ⟨_, rfl⟩ (.refl before), fun before => .ok ⟨_, rfl⟩ (.refl before)⟩

/-- Moving forward is kept by the grammar. -/
def moving : Congruence :=
  movingParsers.toCongruence moving_current moving_advance moving_canRecover

/-- Every rule moves forward. -/
theorem apply_moving (lookahead : Bool) (allowance : Nat) (rule : Rule) :
    moving.rel Eq (apply lookahead allowance rule) (apply lookahead allowance rule) := by
  induction allowance generalizing rule with
  | zero =>
    exact ⟨fun before => .bind (.countRule rule) fun _ _ _ => .refuseDepth,
      fun before => .bind (.countRule rule) fun _ _ _ => .refuseDepth⟩
  | succ allowance ih =>
    have body := moving.rel_body ih lookahead rule
    exact ⟨fun before => .bind (.countRule rule) fun _ _ _ => .nested rule body.1,
      fun before => .bind (.countRule rule) fun _ _ _ => .nested rule body.2⟩

/-- A call of a rule ends in a session behind the one that it started from. -/
theorem applyRule_moves (rule : Rule) (before : Session) :
    Moves (fun value => ∃ value', value = value') before (applyRule rule before) :=
  (apply_moving true before.settings.maxDepth rule).1 before

/-! ### Statements -/

/-- The end of a statement comes behind what was in front of it. -/
theorem Session.Follows.finished (session : Session) : session.Follows session.finished := by
  have eaten : session.Follows (sessionAfter (eat .semicolon session)) :=
    ((moving.rel_eat .semicolon).1 session).follows
  unfold Session.finished
  dsimp only
  split
  · exact eaten
  · exact eaten.trans ((Follows.noting _ _).trans (.reporting _ _))

/-- A parse of a statement keeps the diagnostics of its query. -/
theorem Session.errors_parse {session : Session} (short : session.tokenLimit? = none) :
    (sessionAfter (applyRule .query session)).errors.toList <+: session.parse.errors := by
  cases hresult : applyRule .query session with
  | ok tree after =>
    rw [parse_of_ok short hresult]
    split
    · exact List.prefix_rfl
    · exact (Follows.finished after).errors
  | error failure after =>
    rw [parse_of_error short hresult]
    dsimp only
    split
    · exact List.prefix_rfl
    · exact (Follows.reporting after failure).errors

/-- A parse without diagnostics has a tree. -/
theorem Session.tree_of_errors_eq_nil {session : Session} (running : session.halted = false)
    (clean : session.parse.errors = []) : ∃ tree, session.parse.tree = some tree := by
  cases short : session.tokenLimit? with
  | some error =>
    rw [parse, parseWith, short] at clean
    cases clean
  | none =>
    have moves := applyRule_moves .query session
    cases hresult : applyRule .query session with
    | ok tree after =>
      rw [hresult] at moves
      cases moves with
      | ok _ follows =>
        rw [parse_of_ok short hresult] at clean ⊢
        cases halted : after.halted with
        | true =>
          rw [halted] at clean
          rcases follows.reason halted with earlier | exhausted
          · rw [running] at earlier
            cases earlier
          · exact absurd clean exhausted.errors_ne_nil
        | false => exact ⟨tree, rfl⟩
    | error failure after =>
      rw [hresult] at moves
      cases moves with
      | error follows fatal =>
        rw [parse_of_error short hresult] at clean
        by_cases final : failure.fatal = true
        · rw [if_pos final] at clean
          rcases follows.reason (fatal final) with earlier | exhausted
          · rw [running] at earlier
            cases earlier
          · exact absurd clean exhausted.errors_ne_nil
        · rw [if_neg final, errors_reporting] at clean
          exact absurd clean (by simp)

/-! ### Rules with names -/

/-- Counting an application does not move the cursor. -/
theorem cursor_countRule (rule : Rule) (before : Session) :
    (sessionAfter (countRule rule before)).cursor = before.cursor := by
  unfold Grammar.countRule
  split
  · rw [countInvocation_run]
    split
    · rfl
    · split <;> rfl
  · rfl

/-- The cursor is back where a rule with a name began if the rule fails. -/
theorem position_outsideFailed {rule : Rule} (named : rule.name?.isSome = true) (start : Nat)
    (session : Session) : (outsideFailed rule start session).cursor.position = start := by
  rw [outsideFailed, if_pos named]
  rfl

/-- A rule with a name that fails leaves the cursor where the rule began. -/
theorem position_apply_error {lookahead : Bool} {allowance : Nat} {rule : Rule}
    (named : rule.name?.isSome = true) {before after : Session} {failure : Failure}
    (h : apply lookahead allowance rule before = .error failure after) :
    after.cursor.position = before.cursor.position := by
  have counted := cursor_countRule rule before
  cases allowance with
  | zero =>
    rcases bind_run_error.mp h with hcount | ⟨_, session, hcount, hrefuse⟩
    · rw [hcount] at counted
      exact congrArg _ counted
    · rw [hcount] at counted
      rw [refuseDepth_run] at hrefuse
      cases hrefuse
      rw [← show session.cursor = before.cursor from counted]
      split <;> rfl
  | succ allowance =>
    rcases bind_run_error.mp h with hcount | ⟨_, session, hcount, hbody⟩
    · rw [hcount] at counted
      exact congrArg _ counted
    · rw [hcount] at counted
      rw [← show session.cursor = before.cursor from counted]
      unfold nested at hbody
      split at hbody
      · cases hbody
      · cases hbody
        exact position_outsideFailed named _ _

/-- What was opened is closed again; the cursor has not gone back, and after a failure it is where
it was. -/
def Session.RestoredBy {α : Type} (before : Session) : EStateM.Result Failure Session α → Prop
  | .ok _ after => before.Balanced after ∧ before.cursor.position ≤ after.cursor.position
  | .error _ after => before.Balanced after ∧ after.cursor.position = before.cursor.position

/-- A call of a rule with a name closes what it opened; the cursor does not go back, and where the
call fails, it does not move at all. -/
theorem restoredBy_applyRule {rule : Rule} (named : rule.name?.isSome = true) (before : Session) :
    before.RestoredBy (applyRule rule before) := by
  have same : applyRule rule before = apply true before.settings.maxDepth rule before := rfl
  have hrun := applyRule_moves rule before
  rw [same] at hrun ⊢
  cases hresult : apply true before.settings.maxDepth rule before with
  | ok value after =>
    rw [hresult] at hrun
    cases hrun with
    | ok _ follows => exact ⟨follows.toBalanced, follows.position⟩
  | error failure after =>
    rw [hresult] at hrun
    cases hrun with
    | error follows _ => exact ⟨follows.toBalanced, position_apply_error named hresult⟩

/-! ### Calls from outside -/

/-- The rules that are called from outside. -/
inductive EntryPoint
  | expression | dataType | query | queryBody | querySpec | selectItem | tableReference | sortKey

namespace EntryPoint

/-- The rule that is called. -/
def rule : EntryPoint → Rule
  | .expression => .expression
  | .dataType => .dataType
  | .query => .query
  | .queryBody => .queryBody
  | .querySpec => .querySpec
  | .selectItem => .selectItem
  | .tableReference => .tableReference
  | .sortKey => .sortKey

/-- The rules that are called from outside have names. -/
theorem rule_named (entry : EntryPoint) : entry.rule.name?.isSome = true := by
  cases entry <;> rfl

end EntryPoint

/-- The session after calls of rules, one behind the other, whether they fail or not. -/
def Session.calling (session : Session) (calls : List EntryPoint) : Session :=
  calls.foldl (fun session call => sessionAfter (applyRule call.rule session)) session

/-- Between calls of rules there is nothing open that was not open before. -/
theorem Session.balanced_calling (session : Session) (calls : List EntryPoint) :
    session.Balanced (session.calling calls) := by
  induction calls generalizing session with
  | nil => exact (Follows.refl session).toBalanced
  | cons call calls ih =>
    have hcall := restoredBy_applyRule call.rule_named session
    have hrest := ih (sessionAfter (applyRule call.rule session))
    have hfirst : session.Balanced (sessionAfter (applyRule call.rule session)) := by
      cases hresult : applyRule call.rule session with
      | ok value after =>
        rw [hresult] at hcall
        exact hcall.1
      | error failure after =>
        rw [hresult] at hcall
        exact hcall.1
    exact ⟨hrest.depth.trans hfirst.depth, hrest.rules.trans hfirst.rules,
      hrest.speculation.trans hfirst.speculation, hrest.queryDepth.trans hfirst.queryDepth⟩

end Adql
