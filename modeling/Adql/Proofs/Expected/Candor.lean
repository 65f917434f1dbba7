import Adql.Proofs.Expected.Beyond

/-!
# Failures and notes

A failure expects kinds at a position.  When it was built, they were noted there; and nothing that
happens to it until it leaves a rule changes the notes.  So behind a run that failed, the kinds that
the failure expects are among the notes about its position (`Candid`).
-/

namespace Adql

open Adql.Parser Adql.Grammar

variable {α β : Type}

/-- What the failure expects was noted at its position. -/
def Failure.Noted (failure : Failure) (session : Session) : Prop :=
  ∀ kind ∈ failure.expected, kind ∈ session.notedAt failure.position

/-- The failure of a session expects what was noted. -/
theorem Session.failure_noted (session : Session) : session.failure.Noted session := by
  intro kind found
  unfold Session.failure at found ⊢
  cases notes : session.furthest with
  | none =>
    rw [notes] at found
    exact absurd found (KindSet.not_mem_empty kind)
  | some furthest =>
    rw [notes] at found
    exact Session.notedAt_of_some notes ▸ found

/-- A failure of the parser expects what was noted at its position, unless it ends the parse. -/
def Candid (p : Parser α) : Prop :=
  ∀ session failure after, p session = .error failure after → failure.fatal = false →
    failure.Noted after

namespace Candid

variable {p q : Parser α} {f : α → Parser β}

/-- A parser that does not fail. -/
theorem of_ok (run : ∀ session, ∃ a after, p session = .ok a after) : Candid p := by
  intro session failure after failed
  obtain ⟨a, other, succeeded⟩ := run session
  cases failed.symm.trans succeeded

/-- A parser that fails at once. -/
theorem fail : Candid (fail : Parser α) := by
  rintro session _ _ ⟨⟩ -
  exact session.failure_noted

/-- A parser behind another one, for the values that this one yields. -/
theorem bind_of_yields (hp : Candid p)
    (hf : ∀ before a after, p before = .ok a after → Candid (f a)) : Candid (p >>= f) := by
  intro session failure after failed mild
  change EStateM.bind p f session = _ at failed
  unfold EStateM.bind at failed
  cases run : p session with
  | ok a middle =>
    rw [run] at failed
    exact hf session a middle run middle failure after failed mild
  | error failure' after' =>
    rw [run] at failed
    cases failed
    exact hp session failure after run mild

/-- A parser behind another one. -/
theorem bind (hp : Candid p) (hf : ∀ a, Candid (f a)) : Candid (p >>= f) :=
  hp.bind_of_yields fun _ a _ _ => hf a

/-- A parser that is tried. -/
theorem speculate (hp : Candid p) : Candid (speculate p) := by
  intro session failure after failed mild
  cases run : p session.trying with
  | ok a tried => cases failed.symm.trans (speculate_ok run)
  | error failure' tried =>
    cases failed.symm.trans (speculate_error run)
    exact hp session.trying failure tried run mild

/-- An alternative. -/
theorem alternative (hp : Candid p) : Candid (alternative p) :=
  hp.speculate.bind fun _ => bind (of_ok fun _ => ⟨_, _, rfl⟩) fun _ => of_ok fun _ => ⟨_, _, rfl⟩

/-- A choice. -/
theorem firstOf (hp : Candid p) (hq : Candid q) : Candid (firstOf p q) := by
  intro session failure after failed mild
  unfold Parser.firstOf at failed
  cases run : Parser.alternative p session with
  | ok a tried =>
    rw [run] at failed
    cases failed
  | error failure' tried =>
    rw [run] at failed
    dsimp only at failed
    split at failed
    · cases failed
      exact hp.alternative session failure after run mild
    · exact hq.alternative tried failure after failed mild

/-- A part that may be missing. -/
theorem optional (hp : Candid p) : Candid (optional p) := by
  intro session failure after failed mild
  unfold Parser.optional at failed
  cases run : Parser.speculate p session with
  | ok a tried =>
    rw [run] at failed
    cases failed
  | error failure' tried =>
    rw [run] at failed
    dsimp only at failed
    split at failed
    · cases failed
      exact hp.speculate session failure after run mild
    · cases failed

/-- A parser whose failures are survived. -/
theorem orRecover (hp : Candid p) (sync : List TokenKind) (ifFailed : α) :
    Candid (orRecover p sync ifFailed) := by
  intro session failure after failed mild
  unfold Parser.orRecover at failed
  cases run : p session with
  | ok a tried =>
    rw [run] at failed
    cases failed
  | error failure' tried =>
    rw [run] at failed
    change EStateM.bind (recoverFrom failure' sync) _ tried = _ at failed
    rw [EStateM.bind, recoverFrom_run] at failed
    by_cases kept : (failure'.fatal || !tried.canRecover) = true
    · rw [if_pos kept] at failed
      cases failed
      exact hp session failure after run mild
    · rw [if_neg kept] at failed
      dsimp only at failed
      cases halted : (tried.reporting failure').halted with
      | true =>
        rw [halted, if_pos rfl] at failed
        cases failed
        cases mild
      | false =>
        rw [halted, if_neg Bool.false_ne_true] at failed
        cases failed

/-- The application of a rule is counted. -/
theorem countRule (rule : Rule) : Candid (countRule rule) := by
  intro session failure after failed mild
  unfold Grammar.countRule at failed
  split at failed
  · rw [countInvocation_run] at failed
    split at failed
    · cases failed
      cases mild
    · split at failed
      · cases failed
        cases mild
      · cases failed
  · cases failed

/-- A limit on the depth ends the parse. -/
theorem refuseDepth : Candid (refuseDepth : Parser α) := by
  intro session failure after failed mild
  rw [refuseDepth_run] at failed
  cases failed
  cases mild

/-- The body of a rule. -/
theorem nested (rule : Rule) (hp : Candid p) : Candid (nested rule p) := by
  intro session failure after failed mild
  unfold Parser.nested at failed
  cases run : p (inside rule session) with
  | ok a tried =>
    rw [run] at failed
    cases failed
  | error failure' tried =>
    rw [run] at failed
    cases failed
    have noted := hp (inside rule session) failure tried run mild
    unfold outsideFailed
    split
    · exact noted
    · exact noted

end Candid

/-! ### The grammar -/

/-- Parsers that move forward, the first of which is candid. -/
def candidParsers : NotingRelation where
  rel V p q := moving.rel V p q ∧ Candid p
  rel_pure value := ⟨moving.rel_pure value, .of_ok fun _ => ⟨_, _, rfl⟩⟩
  rel_bind hp hf := ⟨moving.rel_bind hp.1 fun a b value => (hf a b value).1,
    hp.2.bind_of_yields fun before a _ run =>
      have ⟨b, value⟩ := (hp.1.1 before).value run
      (hf a b value).2⟩
  rel_currentKind := ⟨moving.rel_currentKind, .of_ok fun _ => ⟨_, _, rfl⟩⟩
  rel_nextKind := ⟨moving.rel_nextKind, .of_ok fun _ => ⟨_, _, rfl⟩⟩
  rel_kindsAhead := ⟨moving.rel_kindsAhead, .of_ok fun _ => ⟨_, _, rfl⟩⟩
  rel_remaining := ⟨moving.rel_remaining, .of_ok fun _ => ⟨_, _, rfl⟩⟩
  rel_precedence := ⟨moving.rel_precedence, .of_ok fun _ => ⟨_, _, rfl⟩⟩
  rel_advance := ⟨moving.rel_advance, .of_ok fun _ => ⟨_, _, rfl⟩⟩
  rel_noteAll kinds := ⟨movingParsers.rel_noteAll kinds, .of_ok fun _ => ⟨_, _, rfl⟩⟩
  rel_fail := ⟨moving.rel_fail, .fail⟩
  rel_firstOf hp hq := ⟨moving.rel_firstOf hp.1 hq.1, hp.2.firstOf hq.2⟩
  rel_optional hp := ⟨moving.rel_optional hp.1, hp.2.optional⟩
  rel_orRecover sync ifFailed hp :=
    ⟨moving.rel_orRecover sync ifFailed hp.1, hp.2.orRecover sync ifFailed⟩

/-- Candor is kept by the grammar. -/
def candid : Congruence :=
  candidParsers.toCongruence ⟨moving_current, .of_ok fun _ => ⟨_, _, rfl⟩⟩
    ⟨moving_advance, .of_ok fun _ => ⟨_, _, rfl⟩⟩ ⟨moving_canRecover, .of_ok fun _ => ⟨_, _, rfl⟩⟩

/-- Every rule is candid. -/
theorem apply_candid (allowance : Nat) (rule : Rule) : Candid (apply true allowance rule) := by
  suffices h : candid.rel Eq (apply true allowance rule) (apply true allowance rule) from h.2
  refine ⟨apply_moving true allowance rule, ?_⟩
  induction allowance generalizing rule with
  | zero => exact (Candid.countRule rule).bind fun _ => .refuseDepth
  | succ allowance ih =>
    have body := candid.rel_body (fun rule => ⟨apply_moving true allowance rule, ih rule⟩) true rule
    exact (Candid.countRule rule).bind fun _ => .nested rule body.2

end Adql
