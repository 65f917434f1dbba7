import Adql.Proofs.Grammar.Progress

/-!
# Recovery does not change what is accepted

A parse that recovers from failures and one that stops at the first failure are run side by side.
They stay `Parallel` until the strict one fails for good: until then their sessions differ in the
settings only, and from then on all that is known of the other one is that the diagnostic of this
failure comes next among its diagnostics.

The runs can only part where no alternative is being tried, so the strict parse never turns to
another alternative behind the failure where they parted.  The two ways to read the items of a
select list are compared in `Parallel.items`, by induction on the number of steps that are left.

The result is `recovery_agrees`: both parses succeed with the same tree, or both begin with the same
diagnostic.
-/

namespace Adql

open Adql.Parser Adql.Grammar Adql.Session

/-- The session with recovery switched off. -/
def Session.strict (session : Session) : Session :=
  session.under { session.settings with recover := false }

/-- The final token is an end marker. -/
def Session.Ends (session : Session) : Prop :=
  session.cursor.final.kind = .eof

/-- The tokens of a later session end like those of an earlier one. -/
theorem Session.Ends.follows {before after : Session} (ends : before.Ends)
    (h : before.Follows after) : after.Ends := by
  rw [Ends, h.final]
  exact ends

/-- A session in front of given tokens has an end marker behind them. -/
theorem Session.ends_ofTokens (tokens : List Token) (settings : Settings) :
    (ofTokens tokens settings).Ends := by
  change (TokenCursor.ofTokens tokens).final.kind = .eof
  unfold TokenCursor.ofTokens
  cases tokens.getLast? with
  | none => rfl
  | some last =>
    dsimp only
    split
    · rename_i final
      exact of_decide_eq_true final
    · rfl

/-- There is no recovery where it is switched off. -/
theorem Session.canRecover_strict (session : Session) : session.strict.canRecover = false := rfl

/-- What is noted does not depend on recovery. -/
theorem Session.noting_strict (session : Session) (kind : TokenKind) :
    session.strict.noting kind = (session.noting kind).strict := by
  have settings := (Follows.noting session kind).settings
  rw [strict, noting_under, strict, settings]

/-- The same holds for several kinds. -/
theorem Session.foldl_noting_strict (kinds : List TokenKind) (session : Session) :
    kinds.foldl noting session.strict = (kinds.foldl noting session).strict := by
  have settings := (Follows.foldl_noting kinds session).settings
  rw [strict, foldl_noting_under, strict, settings]

/-- The notes that are dropped do not depend on recovery. -/
theorem Session.dropNotesAhead_strict (session : Session) :
    dropNotesAhead session.strict = (dropNotesAhead session).strict := by
  have settings := (Follows.dropNotesAhead session).settings
  rw [strict, dropNotesAhead_under, strict, settings]

/-- The results of a run that may recover from failures and of a strict run.  They agree, or the
strict one fails at a place where no alternative is being tried, and its failure is what the other
one reported next. -/
inductive Parallel {α β : Type} (V : α → β → Prop) (before : Session) :
    EStateM.Result Failure Session α → EStateM.Result Failure Session β → Prop
  | ok {a b after} : V a b → Parallel V before (.ok a after) (.ok b after.strict)
  | error {failure after} : Parallel V before (.error failure after) (.error failure after.strict)
  | parted {result failure after} : failure.fatal = false → before.speculation = 0 →
      after.errors.toList ++ [after.diagnosis failure] <+: (sessionAfter result).errors.toList →
      Parallel V before result (.error failure after)

/-! ### Steps of a list -/

section

variable {α : Type}

/-- What follows an item of a list in which items that fail are skipped. -/
def afterItem (item : Parser α) (count : Nat) (items : Array α) : Parser (Array α) := do
  if ← eat .comma then repeatAtMost (itemStep item) count items else pure items

/-- One more step of a list in which items that fail are skipped: an item, and what follows. -/
theorem repeat_itemStep (item : Parser α) (count : Nat) (items : Array α) :
    repeatAtMost (itemStep item) (count + 1) items =
      (orRecover (some <$> item) itemSync none >>= fun item? =>
        afterItem item count (item?.elim items items.push)) := by
  simp only [repeatAtMost, itemStep, afterItem, bind_assoc]
  congr 1
  funext item?
  congr 1
  funext more
  cases more <;> simp

/-- One more step of a list that is read strictly: a comma, an item, and what follows. -/
theorem repeat_listStep (item : Parser α) (count : Nat) (items : Array α) :
    repeatAtMost (listStep .comma item) (count + 1) items =
      (do
        if ← eat .comma then
          item >>= fun next => repeatAtMost (listStep .comma item) count (items.push next)
        else pure items) := by
  simp only [repeatAtMost, listStep, bind_assoc]
  congr 1
  funext more
  cases more <;> simp

end

namespace Parallel

variable {α β γ δ : Type} {V : α → β → Prop} {W : γ → δ → Prop} {before after : Session}

/-- The session that two parallel runs start from may be replaced by an earlier one. -/
theorem of_follows {r : EStateM.Result Failure Session α} {r' : EStateM.Result Failure Session β}
    (h : before.Follows after) (hr : Parallel V after r r') : Parallel V before r r' := by
  cases hr with
  | ok value => exact .ok value
  | error => exact .error
  | parted mild outermost next => exact .parted mild (h.speculation ▸ outermost) next

/-- Once the runs have parted, more of the run that recovers does not matter. -/
theorem extend {r : EStateM.Result Failure Session α} {s : EStateM.Result Failure Session γ}
    {failure : Failure} (mild : failure.fatal = false) (outermost : before.speculation = 0)
    (next : after.errors.toList ++ [after.diagnosis failure] <+: (sessionAfter r).errors.toList)
    (h : (sessionAfter r).Follows (sessionAfter s)) :
    Parallel W before s (.error failure after) :=
  .parted mild outermost (next.trans h.errors)

/-- Runs go on in parallel where they go on in parallel from related values. -/
theorem bind {p : Parser α} {q : Parser β} {f : α → Parser γ} {g : β → Parser δ}
    (h : Parallel V before (p before) (q before.strict))
    (hp : before.Follows (sessionAfter (p before)))
    (hfollows : ∀ a after, p before = .ok a after → after.Follows (sessionAfter (f a after)))
    (hf : ∀ a b after, V a b → before.Follows after →
      Parallel W after (f a after) (g b after.strict)) :
    Parallel W before ((p >>= f) before) ((q >>= g) before.strict) := by
  change Parallel W before (EStateM.bind p f before) (EStateM.bind q g before.strict)
  unfold EStateM.bind
  generalize p before = r, q before.strict = r' at h hp hfollows ⊢
  cases h with
  | ok value => exact of_follows hp (hf _ _ _ value hp)
  | error => exact .error
  | parted mild outermost next =>
    cases r with
    | ok a session => exact extend mild outermost next (hfollows a session rfl)
    | error failure session => exact .parted mild outermost next

variable {P : α → Prop} {p p' q q' : Parser α} {r : Parser β}

/-! ### Alternatives -/

/-- Where an alternative is being tried, runs do not part. -/
theorem agree {s : EStateM.Result Failure Session α} {s' : EStateM.Result Failure Session β}
    (h : Parallel V before.trying s s') :
    (∃ a b after, V a b ∧ s = .ok a after ∧ s' = .ok b after.strict) ∨
      ∃ failure after, s = .error failure after ∧ s' = .error failure after.strict := by
  cases h with
  | ok value => exact .inl ⟨_, _, _, value, rfl, rfl⟩
  | error => exact .inr ⟨_, _, rfl, rfl⟩
  | parted _ outermost _ => exact absurd outermost (Nat.succ_ne_zero _)

/-- Runs stay parallel in an alternative, where they do not part. -/
theorem speculate (h : Parallel V before.trying (p before.trying) (r before.trying.strict)) :
    Parallel V before.trying (speculate p before) (speculate r before.strict) := by
  rcases agree h with ⟨a, b, after, value, hp, hr⟩ | ⟨failure, after, hp, hr⟩
  · have hr' : r before.strict.trying = .ok b after.strict := hr
    rw [speculate_ok hp, speculate_ok hr']
    exact .ok value
  · have hr' : r before.strict.trying = .error failure after.strict := hr
    rw [speculate_error hp, speculate_error hr']
    exact .error

/-- Runs stay parallel in an alternative of a choice, where they do not part. -/
theorem alternative (h : Parallel V before.trying (p before.trying) (r before.trying.strict)) :
    Parallel V before.trying (alternative p before) (alternative r before.strict) := by
  rcases agree h with ⟨a, b, after, value, hp, hr⟩ | ⟨failure, after, hp, hr⟩
  · have hr' : r before.strict.trying = .ok b after.strict := hr
    rw [alternative_ok hp, alternative_ok hr']
    change Parallel V _ _ (.ok b (dropNotesAhead after.settled.strict))
    rw [dropNotesAhead_strict]
    exact .ok value
  · have hr' : r before.strict.trying = .error failure after.strict := hr
    rw [alternative_error hp, alternative_error hr']
    exact .error

/-- Runs that did not part in an alternative are parallel. -/
theorem tried {s : EStateM.Result Failure Session α} {s' : EStateM.Result Failure Session β}
    (h : Parallel V before.trying s s') : Parallel V before s s' := by
  rcases agree h with ⟨a, b, after, value, rfl, rfl⟩ | ⟨failure, after, rfl, rfl⟩
  · exact .ok value
  · exact .error

/-- Runs stay parallel in a choice. -/
theorem firstOf (hp : Parallel Eq before.trying (p before.trying) (p' before.trying.strict))
    (hq : ∀ after, before.Follows after →
      Parallel Eq after.trying (q after.trying) (q' after.trying.strict))
    (follows : before.Follows (sessionAfter (Parser.alternative p before))) :
    Parallel Eq before (firstOf p q before) (firstOf p' q' before.strict) := by
  unfold Parser.firstOf
  rcases agree (alternative hp) with ⟨a, b, after, value, hp, hr⟩ | ⟨failure, after, hp, hr⟩
  · rw [hp, hr]
    exact .ok value
  · rw [hp] at follows ⊢
    rw [hr]
    dsimp only
    split
    · exact .error
    · exact of_follows follows (tried (alternative (hq after follows)))

/-- Runs stay parallel in an optional part. -/
theorem optional (h : Parallel Eq before.trying (p before.trying) (p' before.trying.strict)) :
    Parallel Eq before (optional p before) (optional p' before.strict) := by
  unfold Parser.optional
  rcases agree (speculate h) with ⟨a, b, after, value, hp, hr⟩ | ⟨failure, after, hp, hr⟩
  · rw [hp, hr]
    exact .ok (congrArg some value)
  · rw [hp, hr]
    dsimp only
    split
    · exact .error
    · exact .ok rfl

/-! ### Recovery -/

/-- A strict run survives no failure. -/
theorem orRecover_strict {after : Session} {result : EStateM.Result Failure Session α}
    (sync : List TokenKind) (ifFailed : α) (h : p after = result)
    (off : (sessionAfter result).settings.recover = false) :
    Parser.orRecover p sync ifFailed after = result := by
  unfold Parser.orRecover
  rw [h]
  cases result with
  | ok value session => rfl
  | error failure session =>
    have none : session.canRecover = false := by
      rw [Session.canRecover, show session.settings.recover = false from off]
      rfl
    change EStateM.bind (recoverFrom failure sync) _ session = _
    unfold EStateM.bind
    rw [recoverFrom_run, none, Bool.not_false, Bool.or_true]
    rfl

/-- What recovery from a failure reports comes next among the diagnostics. -/
theorem recoverFrom {failure : Failure} (sync : List TokenKind) (ifFailed : α)
    (follows : before.Follows after) :
    Parallel V before ((do Parser.recoverFrom failure sync; pure ifFailed : Parser α) after)
      (.error failure after.strict : EStateM.Result Failure Session β) := by
  change Parallel V before (EStateM.bind (Parser.recoverFrom failure sync) _ after) _
  unfold EStateM.bind
  rw [recoverFrom_run]
  cases passed : failure.fatal || !after.canRecover with
  | true => exact .error
  | false =>
    obtain ⟨mild, recovers⟩ := Bool.or_eq_false_iff.mp passed
    have outermost : before.speculation = 0 := by
      rw [← follows.speculation]
      simp only [Session.canRecover, Bool.not_eq_false', Bool.and_eq_true, beq_iff_eq] at recovers
      exact recovers.1.1.2
    have next : after.strict.errors.toList ++ [after.strict.diagnosis failure] <+:
        (after.reporting failure).errors.toList := by
      rw [errors_reporting]
      exact List.prefix_rfl
    simp only [Bool.false_eq_true, ↓reduceIte]
    cases halted : (after.reporting failure).halted with
    | true =>
      simp only [↓reduceIte]
      exact .parted mild outermost next
    | false =>
      simp only [Bool.false_eq_true, ↓reduceIte]
      exact .parted mild outermost next

/-- Runs part at most where one of them recovers from a failure. -/
theorem orRecover (sync : List TokenKind) (ifFailed : α)
    (h : Parallel V before (p before) (r before.strict))
    (hp : Moves P before (p before)) :
    Parallel V before (orRecover p sync ifFailed before) (r before.strict) := by
  have recovered := hp.follows_orRecover sync ifFailed
  unfold Parser.orRecover at recovered ⊢
  generalize p before = result, r before.strict = result' at h hp recovered ⊢
  cases h with
  | ok value => exact .ok value
  | error => exact recoverFrom sync ifFailed hp.follows
  | parted mild outermost next => exact extend mild outermost next recovered

/-! ### Items of a list -/

section

variable {item item' : Parser α} (hrun : moving.rel Eq item item)
  (hitem : ∀ before : Session, before.Ends → Parallel Eq before (item before) (item' before.strict))

include hrun

/-- What is read for one item comes behind the session in front of it. -/
theorem moves_oneItem (before : Session) :
    Moves (fun item? => ∃ item?', item? = item?') before
      (Parser.orRecover (some <$> item) itemSync none before) :=
  .orRecover ((moving.rel_map some hrun).1 before) itemSync ⟨none, rfl⟩

/-- What follows an item moves forward. -/
theorem moving_afterItem (count : Nat) (items : Array α) :
    moving.rel Eq (afterItem item count items) (afterItem item count items) := by
  have step (items : Array α) : moving.rel Eq (itemStep item items) (itemStep item items) :=
    moving.rel_seq (moving.rel_orRecover _ _ (moving.rel_map some hrun)) fun _ =>
      moving.rel_seq (moving.rel_eat _) fun _ =>
        moving.rel_ite _ (moving.rel_value _) (moving.rel_value _)
  exact moving.rel_seq (moving.rel_eat _) fun _ =>
    moving.rel_ite _ (moving.rel_repeatAtMost step _ _) (moving.rel_value _)

include hitem

/-- One item is read in parallel. -/
theorem oneItem (ends : before.Ends) :
    Parallel (fun item? value => item? = some value) before
      (Parser.orRecover (some <$> item) itemSync none before) (item' before.strict) := by
  refine orRecover _ _ ?_ ((moving.rel_map some hrun).1 before)
  change Parallel _ before (EStateM.map some item before) _
  unfold EStateM.map
  have h := hitem before ends
  generalize item before = r, item' before.strict = r' at h ⊢
  cases h with
  | ok same => exact .ok (congrArg some same)
  | error => exact .error
  | parted mild outermost next =>
    cases r with
    | ok _ _ => exact .parted mild outermost next
    | error _ _ => exact .parted mild outermost next

/-- What follows an item is read in parallel, as long as there are steps left for all tokens. -/
theorem items {strictCount count : Nat} {items : Array α} {before : Session} (ends : before.Ends)
    (hcount : before.cursor.remaining ≤ count) (hstrict : before.cursor.remaining < strictCount) :
    Parallel Eq before (afterItem item count items before)
      (repeatAtMost (listStep .comma item') strictCount items before.strict) := by
  induction strictCount generalizing count items before with
  | zero => exact absurd hstrict (Nat.not_lt_zero _)
  | succ strictCount ih =>
    rw [repeat_listStep]
    change Parallel Eq before (EStateM.bind (eat .comma) _ before)
      (EStateM.bind (eat .comma) _ before.strict)
    unfold EStateM.bind
    rw [eat_run, eat_run]
    have current : before.strict.current = before.current := rfl
    rw [current]
    by_cases comma : before.current.kind = .comma
    · have shorter : before.cursor.advance.remaining < before.cursor.remaining :=
        remaining_advance_lt ends (by rw [comma]; decide)
      have advanced := Follows.advance before
      have behind := ends.follows advanced
      obtain ⟨count, rfl⟩ : ∃ rest, count = rest + 1 := ⟨count - 1, by omega⟩
      simp only [comma, ↓reduceIte]
      rw [repeat_itemStep]
      refine of_follows advanced (bind (oneItem hrun hitem behind) (moves_oneItem hrun _).follows
        (fun _ after _ => ((moving_afterItem hrun _ _).1 after).follows) ?_)
      rintro _ value after rfl follows
      have fewer : after.cursor.remaining ≤ before.cursor.advance.remaining :=
        follows.remaining_le
      exact ih (behind.follows follows) (by omega) (by omega)
    · simp only [comma, ↓reduceIte]
      rw [noting_strict]
      exact .ok rfl

end

end Parallel

/-! ### The grammar in parallel -/

/-- Running in parallel is kept by the ways to combine parsers. -/
def parallelParsers : NotingRelation where
  rel V p q := moving.rel V p q ∧
    ∀ before : Session, before.Ends → Parallel V before (p before) (q before.strict)
  rel_pure value := ⟨moving.rel_pure value, fun _ _ => .ok value⟩
  rel_bind hp hf :=
    ⟨moving.rel_bind hp.1 fun a b value => (hf a b value).1, fun before ends =>
      .bind (hp.2 before ends) (hp.1.1 before).follows
        (fun a after found =>
          have ⟨b, value⟩ := (hp.1.1 before).value found
          ((hf a b value).1.1 after).follows)
        fun a b after value follows => (hf a b value).2 after (ends.follows follows)⟩
  rel_currentKind := ⟨moving.rel_currentKind, fun _ _ => .ok rfl⟩
  rel_nextKind := ⟨moving.rel_nextKind, fun _ _ => .ok rfl⟩
  rel_kindsAhead := ⟨moving.rel_kindsAhead, fun _ _ => .ok rfl⟩
  rel_remaining := ⟨moving.rel_remaining, fun _ _ => .ok rfl⟩
  rel_precedence := ⟨moving.rel_precedence, fun _ _ => .ok rfl⟩
  rel_advance := ⟨moving.rel_advance, fun _ _ => .ok trivial⟩
  rel_noteAll kinds := ⟨movingParsers.rel_noteAll kinds, fun before _ => by
    change Parallel Eq before (.ok () _) (.ok () (kinds.foldl Session.noting before.strict))
    rw [foldl_noting_strict]
    exact .ok rfl⟩
  rel_fail := ⟨moving.rel_fail, fun _ _ => .error⟩
  rel_firstOf hp hq := ⟨moving.rel_firstOf hp.1 hq.1, fun before ends =>
    .firstOf (hp.2 before.trying ends)
      (fun after follows => hq.2 after.trying (show after.Ends from ends.follows follows))
      (Moves.alternative hp.1.1).follows⟩
  rel_optional hp := ⟨moving.rel_optional hp.1, fun before ends =>
    .optional (hp.2 before.trying ends)⟩
  rel_orRecover sync ifFailed hp := ⟨moving.rel_orRecover sync ifFailed hp.1, fun before ends => by
    have off := (hp.1.2 before.strict).follows.settings
    rw [Parallel.orRecover_strict sync ifFailed rfl (congrArg Settings.recover off)]
    exact .orRecover sync ifFailed (hp.2 before ends) (hp.1.1 before)⟩

/-- Items with commas between them are read in parallel. -/
theorem parallel_someItems {α : Type} {item item' : Parser α}
    (h : parallelParsers.rel Eq item item') :
    parallelParsers.rel Eq (someItems item) (someItems item') := by
  refine ⟨moving.rel_someItems h.1, fun before ends => ?_⟩
  have hrun : moving.rel Eq item item := ⟨h.1.1, fun before => by simpa only [eq_comm] using h.1.1 before⟩
  have strictly : someItems item' before.strict = oneOrMore .comma item' before.strict := rfl
  rw [strictly]
  cases recovers : before.canRecover with
  | false =>
    have plainly : someItems item before = oneOrMore .comma item before := by
      change (if before.canRecover then _ else _ : Parser (List α)) before = _
      rw [recovers]
      rfl
    rw [plainly]
    exact (parallelParsers.rel_oneOrMore .comma h).2 before ends
  | true =>
    have loop : someItems item before = (Parser.orRecover (some <$> item) itemSync none >>= fun item? =>
        afterItem item before.cursor.remaining (item?.elim #[] #[].push) >>= fun items =>
          pure items.toList) before := by
      rw [← bind_assoc, ← repeat_itemStep]
      change (if before.canRecover then _ else _ : Parser (List α)) before = _
      rw [recovers]
      rfl
    rw [loop]
    refine .bind (Parallel.oneItem hrun h.2 ends) (Parallel.moves_oneItem hrun before).follows ?_ ?_
    · intro item? after _
      exact ((moving.rel_seq (Parallel.moving_afterItem hrun _ _)
        fun _ => moving.rel_value _).1 after).follows
    · rintro _ value after rfl follows
      have behind := ends.follows follows
      refine .bind (Parallel.items hrun h.2 behind follows.remaining_le (Nat.lt_succ_self _))
        ((Parallel.moving_afterItem hrun _ _).1 after).follows (fun _ session _ => .refl session) ?_
      rintro items _ session rfl _
      exact .ok rfl

/-- Running in parallel is kept by the grammar. -/
def parallel : Congruence :=
  have same : parallelParsers.rel Eq current current := ⟨moving_current, fun _ _ => .ok rfl⟩
  parallelParsers.congruence ⟨moving.rel_current, fun _ _ => .ok (.refl _)⟩
    (parallelParsers.rel_identifier ⟨moving_advance, fun _ _ => .ok rfl⟩)
    (parallelParsers.rel_rowCount same) (parallelParsers.rel_typeLength same) parallel_someItems

namespace Parallel

variable {α β : Type} {V : α → β → Prop} {before : Session} {p : Parser α} {q : Parser β}

/-- Runs stay parallel in a rule. -/
theorem nested (rule : Rule)
    (h : Parallel V (inside rule before) (p (inside rule before)) (q (inside rule before).strict)) :
    Parallel V before (nested rule p before) (nested rule q before.strict) := by
  have same : inside rule before.strict = (inside rule before).strict := rfl
  unfold Parser.nested
  rw [same]
  generalize p (inside rule before) = r, q (inside rule before).strict = r' at h ⊢
  cases h with
  | ok value => exact .ok value
  | @error failure after =>
    change Parallel V before (.error failure _)
      (.error failure (outsideFailed rule before.cursor.position after.strict))
    rw [strict, outsideFailed_under, ← settings_outsideFailed rule before.cursor.position after]
    exact .error
  | parted mild outermost next =>
    refine .parted mild outermost ?_
    rw [errors_outsideFailed, diagnosis_outsideFailed]
    cases r with
    | ok a session => exact next
    | error _ session =>
      dsimp only [sessionAfter] at next ⊢
      rw [errors_outsideFailed]
      exact next

/-- The count of applications does not depend on recovery. -/
theorem countRule (rule : Rule) :
    Parallel Eq before (countRule rule before) (countRule rule before.strict) := by
  unfold Grammar.countRule
  split
  · rw [countInvocation_run, countInvocation_run]
    have halted : before.strict.halted = before.halted := rfl
    have budget : overBudget before.strict.counted = overBudget before.counted := rfl
    rw [halted, budget]
    split
    · exact .error
    · cases overBudget before.counted with
      | some limit => exact .error
      | none => exact .ok rfl
  · exact .ok rfl

/-- A refusal to nest deeper does not depend on recovery. -/
theorem refuseDepth : Parallel V before (refuseDepth before) (refuseDepth before.strict) := by
  rw [refuseDepth_run, refuseDepth_run]
  have halted : before.strict.halted = before.halted := rfl
  rw [halted]
  dsimp only
  split
  · exact .error
  · exact .error

end Parallel

/-- Every rule runs in parallel with itself. -/
theorem apply_parallel (lookahead : Bool) (allowance : Nat) (rule : Rule) :
    parallel.rel Eq (apply lookahead allowance rule) (apply lookahead allowance rule) := by
  induction allowance generalizing rule with
  | zero =>
    refine ⟨apply_moving lookahead 0 rule, fun before _ => ?_⟩
    exact .bind (.countRule rule) (Moves.countRule rule).follows
      (fun _ _ _ => (Moves.refuseDepth (P := fun _ => True)).follows) fun _ _ _ _ _ => .refuseDepth
  | succ allowance ih =>
    have body := parallel.rel_body ih lookahead rule
    refine ⟨apply_moving lookahead (allowance + 1) rule, fun before ends => ?_⟩
    refine .bind (.countRule rule) (Moves.countRule rule).follows
      (fun _ after _ => (Moves.nested rule body.1.1).follows) fun _ _ after _ follows => ?_
    exact .nested rule (body.2 (inside rule after) (show after.Ends from ends.follows follows))

/-! ### Statements -/

/-- Two parses succeed with the same tree, or they begin with the same diagnostic. -/
def Outcome.Agree (first second : Outcome) : Prop :=
  (∃ tree, first = ⟨some tree, []⟩ ∧ second = ⟨some tree, []⟩) ∨
    ∃ error, first.errors.head? = some error ∧ second.errors.head? = some error

/-- A parse agrees with itself. -/
theorem Session.agree_self {session : Session} (running : session.halted = false) :
    session.parse.Agree session.parse := by
  have complete := tree_of_errors_eq_nil running
  generalize session.parse = outcome at complete ⊢
  obtain ⟨tree?, errors⟩ := outcome
  cases errors with
  | nil =>
    obtain ⟨tree, rfl⟩ := complete rfl
    exact .inl ⟨tree, rfl, rfl⟩
  | cons error errors => exact .inr ⟨error, rfl, rfl⟩

/-- The end of a statement does not depend on recovery. -/
theorem Session.finished_strict (session : Session) :
    session.strict.finished = session.finished.strict := by
  have eaten : sessionAfter (eat .semicolon session.strict) =
      (sessionAfter (eat .semicolon session)).strict := by
    rw [eat_run, eat_run, noting_strict]
    change sessionAfter (if session.current.kind = .semicolon then _ else _) = _
    split <;> rfl
  unfold finished
  rw [eaten]
  generalize sessionAfter (eat .semicolon session) = behind
  dsimp only
  rw [noting_strict]
  change (if behind.current.kind = .eof then _ else _) = _
  split <;> rfl

/-- A parse whose strict run fails where the other one recovers begins with the same diagnostic. -/
theorem Session.agree_of_parted {session after : Session} {failure : Failure}
    (short : session.tokenLimit? = none) (mild : failure.fatal = false)
    (strictly : applyRule .query session.strict = .error failure after)
    (next : after.errors.toList ++ [after.diagnosis failure] <+:
      (sessionAfter (applyRule .query session)).errors.toList) :
    session.parse.Agree session.strict.parse := by
  have errors : session.strict.parse.errors =
      after.errors.toList ++ [after.diagnosis failure] := by
    have limit : session.strict.tokenLimit? = none := short
    rw [parse_of_error limit strictly, mild, ← errors_reporting]
    rfl
  have longer : session.strict.parse.errors <+: session.parse.errors := by
    rw [errors]
    exact next.trans (errors_parse short)
  obtain ⟨error, rest, split⟩ : ∃ error rest, session.strict.parse.errors = error :: rest := by
    cases hlist : session.strict.parse.errors with
    | nil => simp [hlist] at errors
    | cons error rest => exact ⟨error, rest, rfl⟩
  obtain ⟨more, whole⟩ := longer
  refine .inr ⟨error, ?_, ?_⟩
  · rw [← whole, split]
    rfl
  · rw [split]
    rfl

/-- A parse that recovers from failures agrees with a strict one. -/
theorem Session.parse_agree_strict {session : Session} (ends : session.Ends)
    (running : session.halted = false) : session.parse.Agree session.strict.parse := by
  have limit : session.strict.tokenLimit? = session.tokenLimit? := rfl
  cases short : session.tokenLimit? with
  | some error =>
    rw [parse, parseWith, short, parse, parseWith, limit, short]
    exact .inr ⟨error, rfl, rfl⟩
  | none =>
    rw [short] at limit
    have runs : Parallel Eq session (applyRule .query session) (applyRule .query session.strict) :=
      (apply_parallel true session.settings.maxDepth .query).2 session ends
    generalize loud : applyRule .query session = result,
      strictly : applyRule .query session.strict = result' at runs
    cases runs with
    | @ok tree _ after same =>
      subst same
      have equal : session.strict.parse = session.parse := by
        rw [parse_of_ok short loud, parse_of_ok limit strictly, finished_strict]
        rfl
      rw [equal]
      exact agree_self running
    | @error failure after =>
      have equal : session.strict.parse = session.parse := by
        rw [parse_of_error short loud, parse_of_error limit strictly]
        by_cases final : failure.fatal = true
        · simp only [if_pos final]
          rfl
        · simp only [if_neg final, errors_reporting]
          rfl
      rw [equal]
      exact agree_self running
    | parted mild outermost next =>
      rw [← loud] at next
      exact agree_of_parted short mild strictly next

end Adql
