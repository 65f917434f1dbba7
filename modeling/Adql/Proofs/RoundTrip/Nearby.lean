import Adql.Proofs.RoundTrip.Ensures

/-!
# Only the words matter

Two sessions in front of the same words may differ in the places of the tokens, in the notes and in
what is open around them.  A rule does not tell them apart (`apply_nearby`): it yields the same value
and leaves the same words, or it fails in both, unless the one that may nest less deep passes the
limit.  So what one run has shown of a rule holds in front of these words in general
(`Reads.of_run`, `Stalls.of_run`).
-/

namespace Adql

open Adql.Parser Adql.Grammar

/-- The second run ends like the first one, unless the first one fails for good.  The words of the
two runs may be good in different ways. -/
inductive Nearby {α β : Type} (good good' : Word → Prop) (V : α → β → Prop) :
    EStateM.Result Failure Session α → EStateM.Result Failure Session β → Prop
  | ok {a b after after' rest} : V a b → after.Faces rest .adql good → after'.Faces rest .adql good' →
      Nearby good good' V (.ok a after) (.ok b after')
  | failed {failure failure' after after' rest} : failure.fatal = false → failure'.fatal = false →
      after.Faces rest .adql good → after'.Faces rest .adql good' →
      Nearby good good' V (.error failure after) (.error failure' after')
  | ended {failure after result} : failure.fatal = true → Nearby good good' V (.error failure after) result

namespace Nearby

variable {α β γ δ : Type} {V : α → β → Prop} {W : γ → δ → Prop} {words : List Word}
  {session session' : Session} {good good' : Word → Prop}

/-- Sequences end alike if their parts do. -/
theorem bind {p : Parser α} {q : Parser β} {f : α → Parser γ} {g : β → Parser δ}
    (h : Nearby good good' V (p session) (q session'))
    (hf : ∀ a b words session session', V a b → session.Faces words .adql good → session'.Faces words .adql good' →
      Nearby good good' W (f a session) (g b session')) :
    Nearby good good' W ((p >>= f) session) ((q >>= g) session') := by
  change Nearby good good' W (EStateM.bind p f session) (EStateM.bind q g session')
  unfold EStateM.bind
  generalize p session = r at h ⊢
  generalize q session' = r' at h ⊢
  cases h with
  | ok value faces faces' => exact hf _ _ _ _ _ value faces faces'
  | failed alive alive' faces faces' => exact .failed alive alive' faces faces'
  | ended fatal => exact .ended fatal

variable {p q : Parser α} {p' q' : Parser α}

/-- What is tried ends alike. -/
theorem speculate (h : Nearby good good' Eq (p session.trying) (p' session'.trying)) :
    Nearby good good' Eq (speculate p session) (speculate p' session') := by
  cases hrun : p session.trying with
  | ok a after =>
    rw [hrun] at h
    rw [speculate_ok hrun]
    cases hrun' : p' session'.trying with
    | ok b after' =>
      rw [hrun'] at h
      rw [speculate_ok hrun']
      cases h with
      | ok value faces faces' =>
        exact .ok value (faces.of_eq rfl rfl rfl rfl) (faces'.of_eq rfl rfl rfl rfl)
    | error failure' after' => rw [hrun'] at h; cases h
  | error failure after =>
    rw [hrun] at h
    rw [speculate_error hrun]
    cases hrun' : p' session'.trying with
    | ok b after' =>
      rw [hrun'] at h
      cases h with
      | ended fatal => exact .ended fatal
    | error failure' after' =>
      rw [hrun'] at h
      rw [speculate_error hrun']
      cases h with
      | failed alive alive' faces faces' =>
        exact .failed alive alive' (faces.of_eq rfl rfl rfl rfl) (faces'.of_eq rfl rfl rfl rfl)
      | ended fatal => exact .ended fatal

/-- Alternatives end alike. -/
theorem alternative (h : Nearby good good' Eq (p session.trying) (p' session'.trying)) :
    Nearby good good' Eq (alternative p session) (alternative p' session') := by
  refine bind h.speculate fun a b words session session' value faces faces' => ?_
  exact .ok value faces.dropNotesAhead faces'.dropNotesAhead

/-- Choices end alike if both alternatives do. -/
theorem firstOf (faces : session.Faces words .adql good) (faces' : session'.Faces words .adql good')
    (hp : ∀ words session session', session.Faces words .adql good → session'.Faces words .adql good' →
      Nearby good good' Eq (p session) (p' session'))
    (hq : ∀ words session session', session.Faces words .adql good → session'.Faces words .adql good' →
      Nearby good good' Eq (q session) (q' session')) :
    Nearby good good' Eq (firstOf p q session) (firstOf p' q' session') := by
  have trying {good : Word → Prop} {words : List Word} {session : Session}
      (h : session.Faces words .adql good) : session.trying.Faces words .adql good :=
    h.of_eq rfl rfl rfl rfl
  have first : Nearby good good' Eq (Parser.alternative p session) (Parser.alternative p' session') :=
    (hp words _ _ (trying faces) (trying faces')).alternative
  unfold Parser.firstOf
  generalize Parser.alternative p session = r at first ⊢
  generalize Parser.alternative p' session' = r' at first ⊢
  cases first with
  | ok value faces faces' => exact .ok value faces faces'
  | failed alive alive' faces faces' =>
    simp only [alive, alive']
    exact (hq _ _ _ (trying faces) (trying faces')).alternative
  | ended fatal =>
    simp only [fatal]
    exact .ended fatal

/-- Optional parts end alike. -/
theorem optional (faces : session.Faces words .adql good) (faces' : session'.Faces words .adql good')
    (hp : ∀ words session session', session.Faces words .adql good → session'.Faces words .adql good' →
      Nearby good good' Eq (p session) (p' session')) :
    Nearby good good' Eq (optional p session) (optional p' session') := by
  have first : Nearby good good' Eq (Parser.speculate p session) (Parser.speculate p' session') :=
    (hp words session.trying session'.trying (faces.of_eq rfl rfl rfl rfl)
      (faces'.of_eq rfl rfl rfl rfl)).speculate
  unfold Parser.optional
  generalize Parser.speculate p session = r at first ⊢
  generalize Parser.speculate p' session' = r' at first ⊢
  cases first with
  | ok value faces faces' => exact .ok (congrArg some value) faces faces'
  | failed alive alive' faces faces' =>
    simp only [alive, alive']
    exact .ok rfl faces faces'
  | ended fatal =>
    simp only [fatal]
    exact .ended fatal

/-- Nothing is survived that would not be survived in the other run. -/
theorem orRecover (sync : List TokenKind) (ifFailed : α)
    (h : Nearby good good' Eq (p session) (p' session')) :
    Nearby good good' Eq (orRecover p sync ifFailed session) (orRecover p' sync ifFailed session') := by
  have passed {failure : Failure} {after : Session}
      (h : (failure.fatal || !after.canRecover) = true) :
      (do recoverFrom failure sync; pure ifFailed : Parser α) after = .error failure after := by
    refine bind_run_error.mpr (.inl ?_)
    rw [recoverFrom_run, if_pos h]
  have strict {good : Word → Prop} {words : List Word} {failure : Failure} {after : Session}
      (h : after.Faces words .adql good) : (failure.fatal || !after.canRecover) = true := by
    simp [Session.canRecover, h.strict]
  unfold Parser.orRecover
  generalize p session = r at h ⊢
  generalize p' session' = r' at h ⊢
  cases h with
  | ok value faces faces' => exact .ok value faces faces'
  | failed alive alive' faces faces' =>
    simp only [passed (strict faces), passed (strict faces')]
    exact .failed alive alive' faces faces'
  | @ended failure after result fatal =>
    have lost : (failure.fatal || !after.canRecover) = true := by rw [fatal]; rfl
    simp only [passed lost]
    exact .ended fatal

/-- Rules end alike if their bodies do; a rule with a name goes back to where it began. -/
theorem nested (rule : Rule) {p p' : Parser α} (faces : session.Faces words .adql good)
    (faces' : session'.Faces words .adql good')
    (h : Nearby good good' Eq (p (inside rule session)) (p' (inside rule session')))
    (moves : moving.rel Eq p p) (moves' : moving.rel Eq p' p') :
    Nearby good good' Eq (nested rule p session) (nested rule p' session') := by
  have follows := (moves.1 (inside rule session)).follows
  have follows' := (moves'.1 (inside rule session')).follows
  unfold Parser.nested
  generalize p (inside rule session) = r at h follows ⊢
  generalize p' (inside rule session') = r' at h follows' ⊢
  cases h with
  | ok value faces faces' =>
    exact .ok value (faces.of_eq rfl rfl rfl rfl) (faces'.of_eq rfl rfl rfl rfl)
  | failed alive alive' after after' =>
    by_cases named : rule.name?.isSome = true
    · have back := faces.restored (after.moveTo session.cursor.position) follows.tokens rfl
      have back' := faces'.restored (after'.moveTo session'.cursor.position) follows'.tokens rfl
      simp only [outsideFailed, if_pos named]
      exact .failed alive alive' (back.of_eq rfl rfl rfl rfl) (back'.of_eq rfl rfl rfl rfl)
    · simp only [outsideFailed, if_neg named]
      exact .failed alive alive' (after.of_eq rfl rfl rfl rfl) (after'.of_eq rfl rfl rfl rfl)
  | ended fatal => exact .ended fatal

end Nearby

/-! ### The grammar -/

/-- Runs from sessions in front of the same words end alike. -/
def nearbyParsers : NotingRelation where
  rel V p q := ∀ good good' words session session', session.Faces words .adql good →
    session'.Faces words .adql good' → Nearby good good' V (p session) (q session')
  rel_pure value := fun _ _ _ _ _ faces faces' => .ok value faces faces'
  rel_bind hp hf := fun good good' words session session' faces faces' =>
    (hp good good' words session session' faces faces').bind
      fun a b words session session' value => hf a b value good good' words session session'
  rel_currentKind := fun _ _ _ _ _ faces faces' =>
    .ok (faces.current_kind.trans faces'.current_kind.symm) faces faces'
  rel_nextKind := fun _ _ _ _ _ faces faces' =>
    .ok (faces.next_kind.trans faces'.next_kind.symm) faces faces'
  rel_kindsAhead := fun _ _ _ _ _ faces faces' =>
    .ok (faces.kindsAhead.trans faces'.kindsAhead.symm) faces faces'
  rel_remaining := fun _ _ _ _ _ faces faces' =>
    .ok (faces.remaining.trans faces'.remaining.symm) faces faces'
  rel_precedence := fun _ _ _ _ _ faces faces' =>
    .ok (faces.precedence.trans faces'.precedence.symm) faces faces'
  rel_advance := fun _ _ _ _ _ faces faces' => .ok trivial faces.advance_tail faces'.advance_tail
  rel_noteAll kinds := fun _ _ _ _ _ faces faces' =>
    .ok rfl (faces.foldl_noting kinds) (faces'.foldl_noting kinds)
  rel_fail := fun _ _ _ session session' faces faces' =>
    .failed session.failure_fatal session'.failure_fatal faces faces'
  rel_firstOf hp hq := fun good good' _ _ _ faces faces' =>
    .firstOf faces faces' (hp good good') (hq good good')
  rel_optional hp := fun good good' _ _ _ faces faces' => .optional faces faces' (hp good good')
  rel_orRecover sync ifFailed hp := fun good good' words session session' faces faces' =>
    (hp good good' words session session' faces faces').orRecover sync ifFailed

/-- The current tokens are tokens of one word. -/
theorem nearby_current :
    nearbyParsers.rel (fun first second => first.word = second.word) current current :=
  fun good good' words session session' (faces : session.Faces words .adql good)
      (faces' : session'.Faces words .adql good') =>
    Nearby.ok (faces.current_word.trans faces'.current_word.symm) faces faces'

/-- Tokens that are left behind are tokens of one word. -/
theorem nearby_advance :
    nearbyParsers.rel (fun first second => first.word = second.word) advance advance :=
  fun good good' words session session' (faces : session.Faces words .adql good)
      (faces' : session'.Faces words .adql good') =>
    Nearby.ok (faces.current_word.trans faces'.current_word.symm) faces.advance_tail
      faces'.advance_tail

/-- Whether recovery is possible is the same: it is not. -/
theorem nearby_canRecover : nearbyParsers.rel Eq canRecover canRecover :=
  fun good good' words session session' (faces : session.Faces words .adql good)
      (faces' : session'.Faces words .adql good') => by
    refine Nearby.ok ?_ faces faces'
    simp [Session.canRecover, faces.strict, faces'.strict]

/-- Tokens of one word are alike. -/
theorem Token.Alike.of_word {first second : Token} (h : first.word = second.word) :
    first.Alike second := by
  obtain ⟨kind, lexeme, _⟩ := first
  obtain ⟨kind', lexeme', _⟩ := second
  cases h
  exact ⟨rfl, rfl, rfl, rfl⟩

/-- Tokens of one word stand for the same number of rows. -/
theorem Token.rowCount?_of_word {first second : Token} (h : first.word = second.word) :
    first.rowCount? = second.rowCount? := by
  obtain ⟨kind, lexeme, _⟩ := first
  obtain ⟨kind', lexeme', _⟩ := second
  cases h
  rfl

/-- Tokens of one word stand for the same length. -/
theorem Token.length?_of_word {first second : Token} (h : first.word = second.word) :
    first.length? = second.length? := by
  obtain ⟨kind, lexeme, _⟩ := first
  obtain ⟨kind', lexeme', _⟩ := second
  cases h
  rfl

/-- A name is read alike. -/
theorem nearby_identifier : nearbyParsers.rel Eq identifier identifier := by
  have regular := nearbyParsers.rel_bind nearby_advance fun first second same =>
    nearbyParsers.rel_pure (V := Eq)
      (congrArg (fun word => Identifier.regular word.lexeme) same)
  have delimited := nearbyParsers.rel_bind nearby_advance fun first second same =>
    nearbyParsers.rel_pure (V := Eq)
      (congrArg (fun word => Identifier.delimited (Text.unquoted '"' word.lexeme)) same)
  refine nearbyParsers.rel_seq (nearbyParsers.rel_check _) fun _ =>
    nearbyParsers.rel_ite _ regular ?_
  exact nearbyParsers.rel_seq (nearbyParsers.rel_check _) fun _ =>
    nearbyParsers.rel_ite _ delimited nearbyParsers.rel_fail

/-- A number of rows is read alike. -/
theorem nearby_rowCount : nearbyParsers.rel Eq rowCount rowCount := by
  refine nearbyParsers.rel_seq (nearbyParsers.rel_check _) fun _ =>
    nearbyParsers.rel_ite _ ?_ nearbyParsers.rel_fail
  refine nearbyParsers.rel_bind nearby_current fun first second same => ?_
  rw [← Token.rowCount?_of_word same]
  cases first.rowCount? with
  | some count => exact nearbyParsers.rel_then nearbyParsers.rel_advance (nearbyParsers.rel_value _)
  | none => exact nearbyParsers.rel_fail

/-- The length of a type is read alike. -/
theorem nearby_typeLength : nearbyParsers.rel Eq typeLength typeLength := by
  refine nearbyParsers.rel_seq (nearbyParsers.rel_eat _) fun _ =>
    nearbyParsers.rel_ite _ ?_ (nearbyParsers.rel_value none)
  refine nearbyParsers.rel_seq (nearbyParsers.rel_check _) fun _ =>
    nearbyParsers.rel_ite _ ?_ nearbyParsers.rel_fail
  refine nearbyParsers.rel_bind nearby_current fun first second same => ?_
  rw [← Token.length?_of_word same]
  cases first.length? with
  | some length =>
    exact nearbyParsers.rel_then nearbyParsers.rel_advance
      (nearbyParsers.rel_expectThen _ (nearbyParsers.rel_value _))
  | none => exact nearbyParsers.rel_failExpecting _

/-- Ending alike is kept by the grammar. -/
def nearby : Congruence :=
  have alike : nearbyParsers.rel Token.Alike current current := by
    have h : nearbyParsers.rel Token.Alike (current >>= pure) (current >>= pure) :=
      nearbyParsers.rel_bind nearby_current fun first second same =>
        nearbyParsers.rel_pure (.of_word same)
    rwa [bind_pure] at h
  nearbyParsers.congruence alike nearby_identifier nearby_rowCount nearby_typeLength
    (nearbyParsers.rel_someItems nearby_canRecover)

/-- A rule does not tell sessions in front of the same words apart; if it may nest deeper in the
second one, it ends alike unless the first one passes the limit. -/
theorem apply_nearby {allowance allowance' : Nat} (h : allowance ≤ allowance') (rule : Rule) :
    nearby.rel Eq (apply true allowance rule) (apply true allowance' rule) := by
  induction allowance generalizing allowance' rule with
  | zero =>
    intro good good' words session session' faces faces'
    obtain ⟨after, hcount, -⟩ := Reads.countRule rule words good session faces
    have refused : ∃ failure after, apply true 0 rule session = .error failure after ∧
        failure.fatal = true :=
      ⟨_, _, bind_run_error.mpr (.inr ⟨(), after, hcount, refuseDepth_run after⟩), rfl⟩
    obtain ⟨failure, after, hrun, fatal⟩ := refused
    rw [hrun]
    exact .ended fatal
  | succ allowance ih =>
    obtain ⟨allowance', rfl⟩ : ∃ fewer, allowance' = fewer + 1 := ⟨allowance' - 1, by omega⟩
    have less : allowance ≤ allowance' := by omega
    intro good good' words session session' faces faces'
    have body := nearby.rel_body (fun rule => ih less rule) true rule
    obtain ⟨counted, hcount, hcounted⟩ := Reads.countRule rule words good session faces
    obtain ⟨counted', hcount', hcounted'⟩ := Reads.countRule rule words good' session' faces'
    have count : Nearby good good' Eq (countRule rule session) (countRule rule session') := by
      rw [hcount, hcount']
      exact .ok rfl hcounted hcounted'
    refine Nearby.bind count fun _ _ words session session' _ faces faces' => ?_
    exact Nearby.nested rule faces faces'
      (body good good' words _ _ (faces.of_eq rfl rfl rfl rfl) (faces'.of_eq rfl rfl rfl rfl))
      (moving.rel_body (apply_moving true allowance) true rule)
      (moving.rel_body (apply_moving true allowance') true rule)

/-! ### What one run shows -/

section

variable {rule : Rule} {allowance allowance' : Nat} {words : List Word} {good : Word → Prop}
  {session after : Session}

/-- What a rule yields in one run, it reads wherever it may nest as deep. -/
theorem Reads.of_run {value : rule.Result} (faces : session.Faces words .adql good)
    (hrun : Grammar.apply true allowance rule session = .ok value after) :
    ∃ rest, after.Faces rest .adql good ∧ ∀ allowance', allowance ≤ allowance' →
      Reads (Grammar.apply true allowance' rule) words value rest := by
  have self := apply_nearby (Nat.le_refl allowance) rule good good words session session faces faces
  rw [hrun] at self
  cases self with
  | @ok _ _ _ _ rest _ hafter _ =>
    refine ⟨rest, hafter, fun allowance' more good' session' faces' => ?_⟩
    have other := apply_nearby more rule good good' words session session' faces faces'
    rw [hrun] at other
    generalize Grammar.apply true allowance' rule session' = result at other
    cases other with
    | @ok _ _ _ final rest' value faces faces' =>
      have same : rest' = rest := by rw [← faces.words_eq, hafter.words_eq]
      exact ⟨final, by rw [value], same ▸ faces'⟩

/-- What a rule fails at in one run, it fails at wherever it may nest as deep. -/
theorem Stalls.of_run {failure : Failure} (faces : session.Faces words .adql good)
    (hrun : Grammar.apply true allowance rule session = .error failure after)
    (alive : failure.fatal = false) (more : allowance ≤ allowance') :
    Stalls (Grammar.apply true allowance' rule) words := by
  intro good' session' faces'
  have other := apply_nearby more rule good good' words session session' faces faces'
  rw [hrun] at other
  generalize Grammar.apply true allowance' rule session' = result at other
  cases other with
  | failed _ alive' _ faces' => exact ⟨_, _, _, rfl, alive', faces'⟩
  | ended fatal => rw [alive] at fatal; cases fatal

/-- What a rule yields in a run, it reads wherever it may nest as deep. -/
theorem Ensures.reads (rule : Rule) (allowance : Nat) (words : List Word) :
    Ensures (Grammar.apply true allowance rule) words (fun value rest => ∀ allowance',
      allowance ≤ allowance' → Reads (Grammar.apply true allowance' rule) words value rest) good :=
  fun _ _ _ faces hrun => Reads.of_run faces hrun

/-- What a rule stumbles over, it fails at wherever it may nest as deep. -/
theorem Stumbles.stalls (h : Stumbles (apply true allowance rule) words good)
    (more : allowance ≤ allowance') : Stalls (apply true allowance' rule) words := by
  obtain ⟨_, _, _, faces, hrun, alive⟩ := h
  exact .of_run faces hrun alive more

/-- A rule with a name that fails in one run fails where it stands. -/
theorem Stumbles.fails (named : rule.name?.isSome = true)
    (h : Stumbles (apply true allowance rule) words good) (more : allowance ≤ allowance') :
    Fails (apply true allowance' rule) words :=
  (h.stalls more).fails named

end

end Adql
