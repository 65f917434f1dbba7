import Adql.Proofs.Expected.Notes
import Adql.Proofs.RoundTrip.Outcomes

/-!
# Notes behind the cursor

A note is made at the cursor.  So a parser that starts behind a position ends behind it, and notes
nothing about it (`Beyond`): whatever was looked for there was looked for before.
-/

namespace Adql

open Adql.Parser Adql.Grammar

variable {α β σ : Type}

namespace Session

variable {session : Session} {kind other : TokenKind} {position : Nat}

/-- A kind that is noted at the cursor is noted nowhere else. -/
theorem mem_notedAt_noting (noted : other ∈ (session.noting kind).notedAt position) :
    other ∈ session.notedAt position ∨ position = session.cursor.position ∧ other = kind := by
  by_cases ahead : session.NotesAhead
  · rw [noting_of_ahead ahead] at noted
    exact .inl noted
  · obtain ⟨furthest, same, here, members⟩ := exists_noting ahead kind
    rw [same] at noted
    obtain ⟨_, ⟨⟩, there, found⟩ := exists_of_mem_notedAt noted
    obtain rfl : position = session.cursor.position := there.symm.trans here
    exact ((members other).mp found).symm.imp id fun kind => ⟨rfl, kind⟩

/-- Kinds that are noted at the cursor are noted nowhere else. -/
theorem mem_notedAt_foldl_noting {kinds : List TokenKind}
    (noted : other ∈ (kinds.foldl noting session).notedAt position) :
    other ∈ session.notedAt position ∨ position = session.cursor.position ∧ other ∈ kinds := by
  induction kinds generalizing session with
  | nil => exact .inl noted
  | cons kind kinds ih =>
    rcases ih noted with first | ⟨here, found⟩
    · exact (mem_notedAt_noting first).imp id fun ⟨here, same⟩ => ⟨here, same ▸ List.mem_cons_self⟩
    · rw [cursor_noting] at here
      exact .inr ⟨here, List.mem_cons_of_mem _ found⟩

/-- Dropping notes adds none. -/
theorem mem_notedAt_dropNotesAhead (noted : other ∈ (dropNotesAhead session).notedAt position) :
    other ∈ session.notedAt position := by
  unfold dropNotesAhead at noted
  cases notes : session.furthest with
  | none =>
    rw [notes] at noted
    exact noted
  | some furthest =>
    rw [notes] at noted
    dsimp only at noted
    split at noted
    · exact absurd noted (KindSet.not_mem_empty other)
    · exact noted

/-- A session comes behind a position after another one, in which all was noted that is noted about the
position. -/
structure Past (before after : Session) (position : Nat) : Prop where
  /-- The cursor is behind the position. -/
  behind : position < after.cursor.position
  /-- Nothing was noted about the position in between. -/
  noted : ∀ kind ∈ after.notedAt position, kind ∈ before.notedAt position

/-- What comes behind a position after a later session comes behind it after the earlier one. -/
theorem Past.trans {first second third : Session} (h : first.Past second position)
    (h' : second.Past third position) : first.Past third position :=
  ⟨h'.behind, fun kind found => h.noted kind (h'.noted kind found)⟩

/-- A session behind a position comes behind it after itself, and after any session with its notes. -/
theorem Past.of_eq {before after : Session} (behind : position < after.cursor.position)
    (furthest : after.furthest = before.furthest) : before.Past after position :=
  ⟨behind, fun kind found => by rwa [notedAt, furthest] at found⟩

end Session

/-- Behind a position, the parser stays behind it and notes nothing about it. -/
def Beyond (p : Parser α) : Prop :=
  ∀ (position : Nat) (session : Session), position < session.cursor.position →
    session.Past (sessionAfter (p session)) position

namespace Beyond

variable {p q : Parser α} {f : α → Parser β}

/-- A parser that leaves the session as it is. -/
theorem of_same (same : ∀ session, sessionAfter (p session) = session) : Beyond p :=
  fun _ session behind => (same session).symm ▸ .of_eq behind rfl

/-- A value is yielded at once. -/
theorem pure (a : α) : Beyond (Pure.pure a) :=
  of_same fun _ => rfl

/-- A parser that fails at once. -/
theorem fail : Beyond (fail : Parser α) :=
  of_same fun _ => rfl

/-- A parser behind another one, for the values that this one yields. -/
theorem bind_of_yields (hp : Beyond p)
    (hf : ∀ before a after, p before = .ok a after → Beyond (f a)) : Beyond (p >>= f) := by
  intro position session behind
  have first := hp position session behind
  change session.Past (sessionAfter (EStateM.bind p f session)) position
  unfold EStateM.bind
  cases run : p session with
  | ok a after =>
    rw [run] at first
    exact first.trans (hf session a after run position after first.behind)
  | error failure after =>
    rw [run] at first
    exact first

/-- A parser behind another one. -/
theorem bind (hp : Beyond p) (hf : ∀ a, Beyond (f a)) : Beyond (p >>= f) :=
  hp.bind_of_yields fun _ a _ _ => hf a

/-- The value may be mapped. -/
theorem map {g : α → β} (hp : Beyond p) : Beyond (g <$> p) := by
  rw [map_eq_pure_bind]
  exact hp.bind fun a => .pure (g a)

/-- A choice by a condition. -/
theorem ite {c : Prop} [Decidable c] (hp : Beyond p) (hq : Beyond q) :
    Beyond (if c then p else q) := by
  split
  · exact hp
  · exact hq

/-- Kinds are noted. -/
theorem noteAll (kinds : List TokenKind) : Beyond (noteAll kinds) := by
  intro position session behind
  refine ⟨?_, fun kind found => ?_⟩
  · change position < (kinds.foldl Session.noting session).cursor.position
    rwa [Session.cursor_foldl_noting]
  · rcases Session.mem_notedAt_foldl_noting found with noted | ⟨here, -⟩
    · exact noted
    · exact absurd here (Nat.ne_of_lt behind)

/-- A kind is looked for. -/
theorem check (kind : TokenKind) : Beyond (check kind) := by
  refine bind (of_same fun _ => rfl) fun here => ?_
  exact .ite (.pure true) ((noteAll [kind]).bind fun _ => .pure false)

/-- The cursor moves on. -/
theorem advance : Beyond advance := by
  intro position session behind
  refine .of_eq ?_ rfl
  exact Nat.lt_of_lt_of_le behind (Session.Follows.advance session).position

/-- A word is eaten if it is there. -/
theorem eat (kind : TokenKind) : Beyond (eat kind) :=
  (check kind).bind fun _ => .ite (advance.bind fun _ => .pure true) (.pure false)

/-- A word that has to be there. -/
theorem expect (kind : TokenKind) : Beyond (expect kind) :=
  (check kind).bind fun _ => .ite advance fail

/-- A parser that is tried. -/
theorem speculate (hp : Beyond p) : Beyond (speculate p) := by
  intro position session behind
  have tried := hp position session.trying behind
  cases run : p session.trying with
  | ok a after =>
    rw [run] at tried
    rw [speculate_ok run]
    exact ⟨tried.behind, tried.noted⟩
  | error failure after =>
    rw [run] at tried
    rw [speculate_error run]
    exact ⟨tried.behind, tried.noted⟩

/-- An alternative. -/
theorem alternative (hp : Beyond p) : Beyond (alternative p) := by
  refine hp.speculate.bind fun a => bind (fun position session behind => ?_) fun _ => .pure a
  refine ⟨?_, fun kind found => Session.mem_notedAt_dropNotesAhead found⟩
  change position < (dropNotesAhead session).cursor.position
  rwa [Session.cursor_dropNotesAhead]

/-- A choice. -/
theorem firstOf (hp : Beyond p) (hq : Beyond q) : Beyond (firstOf p q) := by
  intro position session behind
  have tried := hp.alternative position session behind
  unfold Parser.firstOf
  cases run : Parser.alternative p session with
  | ok a after =>
    rw [run] at tried
    exact tried
  | error failure after =>
    rw [run] at tried
    dsimp only
    split
    · exact tried
    · exact tried.trans (hq.alternative position after tried.behind)

/-- A part that may be missing. -/
theorem optional (hp : Beyond p) : Beyond (optional p) := by
  intro position session behind
  have tried := hp.speculate position session behind
  unfold Parser.optional
  cases run : Parser.speculate p session with
  | ok a after =>
    rw [run] at tried
    exact tried
  | error failure after =>
    rw [run] at tried
    dsimp only
    split
    · exact tried
    · exact tried

/-- A failure that is reported or passed on. -/
theorem recoverFrom (failure : Failure) (sync : List TokenKind) :
    Beyond (recoverFrom failure sync) := by
  intro position session behind
  have reported : session.Past (session.reporting failure) position :=
    ⟨behind, fun kind found => absurd found (KindSet.not_mem_empty kind)⟩
  rw [recoverFrom_run]
  split
  · exact .of_eq behind rfl
  · dsimp only
    split
    · exact reported
    · exact reported.trans (.of_eq (Nat.lt_of_lt_of_le behind (Nat.le_add_right _ _)) rfl)

/-- A parser whose failures are survived. -/
theorem orRecover (hp : Beyond p) (sync : List TokenKind) (ifFailed : α) :
    Beyond (orRecover p sync ifFailed) := by
  intro position session behind
  have tried := hp position session behind
  unfold Parser.orRecover
  cases run : p session with
  | ok a after =>
    rw [run] at tried
    exact tried
  | error failure after =>
    rw [run] at tried
    have survived := (recoverFrom failure sync).bind fun _ => .pure ifFailed
    exact tried.trans (survived position after tried.behind)

/-- A repetition. -/
theorem iterate {step : σ → Parser (Step σ)} (h : ∀ state, Beyond (step state)) (start : σ) :
    Beyond (iterate step start) := by
  refine bind (of_same fun _ => rfl) fun count => ?_
  induction count + 1 generalizing start with
  | zero => exact .pure start
  | succ count ih =>
    refine bind (h start) fun next => ?_
    cases next with
    | more state => exact ih state
    | done state => exact .pure state

/-- The application of a rule is counted. -/
theorem countRule (rule : Rule) : Beyond (countRule rule) := by
  unfold Grammar.countRule
  refine .ite (fun position session behind => ?_) (.pure ())
  rw [countInvocation_run]
  split
  · exact .of_eq behind rfl
  · split
    · exact .of_eq behind rfl
    · exact .of_eq behind rfl

/-- The body of a rule. -/
theorem nested (rule : Rule) (hp : Beyond p) : Beyond (nested rule p) := by
  intro position session behind
  have inner := hp position (inside rule session) behind
  unfold Parser.nested
  cases run : p (inside rule session) with
  | ok a after =>
    rw [run] at inner
    exact ⟨inner.behind, inner.noted⟩
  | error failure after =>
    rw [run] at inner
    dsimp only [sessionAfter]
    unfold outsideFailed
    split
    · exact ⟨behind, inner.noted⟩
    · exact ⟨inner.behind, inner.noted⟩

/-- A rule without allowance. -/
theorem apply_zero (rule : Rule) : Beyond (apply true 0 rule) := by
  refine (countRule rule).bind fun _ position session behind => ?_
  rw [refuseDepth_run]
  dsimp only [sessionAfter]
  split
  · exact .of_eq behind rfl
  · exact .of_eq behind rfl

/-- A rule, if its body may be. -/
theorem apply {rule : Rule} {allowance : Nat}
    (h : Beyond (body true (apply true allowance) rule)) :
    Beyond (Grammar.apply true (allowance + 1) rule) :=
  (countRule rule).bind fun _ => nested rule h

end Beyond

/-! ### The grammar -/

/-- Parsers that move forward, the first of which stays behind what is behind it. -/
def beyondParsers : NotingRelation where
  rel V p q := moving.rel V p q ∧ Beyond p
  rel_pure value := ⟨moving.rel_pure value, .pure _⟩
  rel_bind hp hf := ⟨moving.rel_bind hp.1 fun a b value => (hf a b value).1,
    hp.2.bind_of_yields fun before a _ run =>
      have ⟨b, value⟩ := (hp.1.1 before).value run
      (hf a b value).2⟩
  rel_currentKind := ⟨moving.rel_currentKind, .of_same fun _ => rfl⟩
  rel_nextKind := ⟨moving.rel_nextKind, .of_same fun _ => rfl⟩
  rel_kindsAhead := ⟨moving.rel_kindsAhead, .of_same fun _ => rfl⟩
  rel_remaining := ⟨moving.rel_remaining, .of_same fun _ => rfl⟩
  rel_precedence := ⟨moving.rel_precedence, .of_same fun _ => rfl⟩
  rel_advance := ⟨moving.rel_advance, .advance⟩
  rel_noteAll kinds := ⟨movingParsers.rel_noteAll kinds, .noteAll kinds⟩
  rel_fail := ⟨moving.rel_fail, .fail⟩
  rel_firstOf hp hq := ⟨moving.rel_firstOf hp.1 hq.1, hp.2.firstOf hq.2⟩
  rel_optional hp := ⟨moving.rel_optional hp.1, hp.2.optional⟩
  rel_orRecover sync ifFailed hp :=
    ⟨moving.rel_orRecover sync ifFailed hp.1, hp.2.orRecover sync ifFailed⟩

/-- Staying behind what is behind it is kept by the grammar. -/
def beyond : Congruence :=
  beyondParsers.toCongruence ⟨moving_current, .of_same fun _ => rfl⟩ ⟨moving_advance, .advance⟩
    ⟨moving_canRecover, .of_same fun _ => rfl⟩

/-- Behind a position, a rule stays behind it and notes nothing about it. -/
theorem apply_beyond (allowance : Nat) (rule : Rule) :
    beyond.rel Eq (apply true allowance rule) (apply true allowance rule) := by
  refine ⟨apply_moving true allowance rule, ?_⟩
  induction allowance generalizing rule with
  | zero => exact .apply_zero rule
  | succ allowance ih =>
    have body := beyond.rel_body (fun rule => ⟨apply_moving true allowance rule, ih rule⟩) true rule
    exact .apply body.2

end Adql
