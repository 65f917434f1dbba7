import Adql.Proofs.Grammar.Layout
import Adql.Proofs.Shape.Statements

/-!
# Diagnostics stand in the order of the text

A failure is reported at the furthest token where anything was looked for in vain, and that may lie
ahead of the cursor.  Rules that fail go back to where they began, and the notes survive it.  Still
no diagnostic stands in front of an earlier one: everything reported so far stands no later than the
cursor and than the notes (`Session.ReportedUpTo`).  While a failure is passed on, its own place
takes the place of the cursor, which may have gone back farther.  Recovery makes up for it: it goes
on behind the failure or at the end.

An alternative that is being tried reports nothing, so what is known in front of it is known behind
it, where its failure is forgotten.

The result is `parseText_diagnostics`.
-/

namespace Adql

open Adql.Parser Adql.Grammar

/-! ### Tokens -/

/-- The diagnostic carries the place and the text of the token. -/
structure Diagnostic.Marks (error : Diagnostic) (token : Token) : Prop where
  /-- The line. -/
  line : error.line = token.line
  /-- The column. -/
  column : error.column = token.column
  /-- The bytes. -/
  span : error.span = token.span
  /-- The text. -/
  found : error.found = token.lexeme

namespace TokenCursor

/-- The offset at which the token at a position starts. -/
def startAt (cursor : TokenCursor) (position : Nat) : Nat :=
  (cursor.tokenAt position).span.start

/-- The tokens stand in the order of the text, and the end marker behind them is the only one. -/
structure Ascending (cursor : TokenCursor) : Prop where
  /-- The last token is an end marker. -/
  final : cursor.final.kind = .eof
  /-- Later tokens start no earlier. -/
  starts : Monotone cursor.startAt
  /-- There is no end marker in front of the last one. -/
  inner : ∀ token ∈ cursor.tokens.toList, token.kind ≠ .eof

/-- Behind the end there is only the end marker. -/
theorem startAt_of_size_le {cursor : TokenCursor} {position : Nat}
    (beyond : cursor.tokens.size ≤ position) :
    cursor.startAt position = cursor.final.span.start := by
  rw [startAt, tokenAt, Array.getElem?_eq_none beyond, Option.getD_none]

/-- The end marker starts no earlier than any token. -/
theorem Ascending.startAt_le {cursor : TokenCursor} (h : cursor.Ascending) {position last : Nat}
    (beyond : cursor.tokens.size ≤ last) : cursor.startAt position ≤ cursor.startAt last := by
  refine Nat.le_trans (h.starts (Nat.le_max_left position last)) (Nat.le_of_eq ?_)
  rw [startAt_of_size_le beyond, startAt_of_size_le (Nat.le_trans beyond (Nat.le_max_right _ _))]

end TokenCursor

/-- So many kinds are skipped that all are, or that the failure is reached. -/
theorem skipCount_reaches (sync : List TokenKind) (failedAt position depth : Nat)
    (kinds : List TokenKind)
    (inner : ∀ kind ∈ kinds, kind ≠ .eof) :
    skipCount sync failedAt position depth (kinds ++ [.eof]) = kinds.length ∨
      failedAt ≤ position + skipCount sync failedAt position depth (kinds ++ [.eof]) := by
  induction kinds generalizing position depth with
  | nil => exact .inl rfl
  | cons kind kinds ih =>
    obtain ⟨more, rest⟩ := List.forall_mem_cons.mp inner
    rw [List.cons_append, skipCount, if_neg more]
    split
    · next stop => exact .inr stop.2.1
    · rw [List.length_cons]
      refine (ih (position + 1) _ rest).imp (congrArg (· + 1)) fun reached => ?_
      omega

/-- Where a parse goes on, the token starts no earlier than the one that failed. -/
theorem TokenCursor.Ascending.startAt_resynchronized {cursor : TokenCursor} (h : cursor.Ascending)
    (sync : List TokenKind) (failedAt : Nat) :
    cursor.startAt failedAt ≤ cursor.startAt (cursor.resynchronized sync failedAt).position := by
  have inner : ∀ kind ∈ (cursor.tokens.toList.drop cursor.position).map (·.kind), kind ≠ .eof := by
    intro kind found
    obtain ⟨token, member, rfl⟩ := List.mem_map.mp found
    exact h.inner token (List.mem_of_mem_drop member)
  unfold resynchronized skipped kindsAhead
  rw [h.final]
  rcases skipCount_reaches sync failedAt cursor.position 0 _ inner with all | reached
  · refine h.startAt_le ?_
    simp only [moveTo, all, List.length_map, List.length_drop, Array.length_toList]
    omega
  · exact h.starts reached

/-! ### Sessions -/

namespace Session

/-- The diagnostics are about tokens, and they stand in their order. -/
structure Reported (session : Session) : Prop where
  /-- No diagnostic stands in front of an earlier one. -/
  inOrder : session.errors.toList.Pairwise fun first second => first.span.start ≤ second.span.start
  /-- Each of them carries the place of a token. -/
  marked : ∀ error ∈ session.errors.toList,
    ∃ position, error.Marks (session.cursor.tokenAt position)

/-- Besides, the diagnostics stand no later than a position, and than the notes. -/
structure ReportedUpTo (session : Session) (position : Nat) : Prop extends Reported session where
  /-- The diagnostics stand no later than the token at the position. -/
  passed : ∀ error ∈ session.errors.toList, error.span.start ≤ session.cursor.startAt position
  /-- The diagnostics stand no later than the notes. -/
  noted : ∀ furthest ∈ session.furthest, ∀ error ∈ session.errors.toList,
    error.span.start ≤ session.cursor.startAt furthest.position

variable {session before after : Session} {position : Nat}

/-- A note is no diagnostic. -/
theorem errors_noting (session : Session) (kind : TokenKind) :
    (session.noting kind).errors = session.errors := by
  unfold Session.noting
  cases session.furthest with
  | none => rfl
  | some furthest =>
    dsimp only
    split
    · rfl
    · split <;> rfl

/-- Notes are no diagnostics. -/
theorem errors_foldl_noting (session : Session) (kinds : List TokenKind) :
    (kinds.foldl Session.noting session).errors = session.errors := by
  induction kinds generalizing session with
  | nil => rfl
  | cons kind kinds ih => exact (ih (session.noting kind)).trans (session.errors_noting kind)

/-- The tokens of a later session start where they did. -/
theorem Follows.startAt (follows : before.Follows after) :
    after.cursor.startAt = before.cursor.startAt := by
  funext position
  rw [TokenCursor.startAt, TokenCursor.startAt, follows.tokenAt]

/-- The tokens of a later session stand in the order of the text as well. -/
theorem Follows.ascending (follows : before.Follows after) (h : before.cursor.Ascending) :
    after.cursor.Ascending where
  final := follows.final ▸ h.final
  starts := follows.startAt ▸ h.starts
  inner := follows.tokens ▸ h.inner

namespace ReportedUpTo

/-- A failure stands no earlier than the diagnostics. -/
theorem failure (h : session.ReportedUpTo session.cursor.position) :
    session.ReportedUpTo session.failure.position := by
  unfold Session.failure
  cases hnotes : session.furthest with
  | none => exact h
  | some furthest => exact { h with passed := h.noted furthest hnotes }

/-- A kind may be noted at the cursor. -/
theorem noting (h : session.ReportedUpTo session.cursor.position) (kind : TokenKind) :
    (session.noting kind).ReportedUpTo (session.noting kind).cursor.position := by
  unfold Session.noting
  cases hnotes : session.furthest with
  | none => exact { h with noted := by rintro _ ⟨⟩; exact h.passed }
  | some furthest =>
    dsimp only
    split
    · exact h
    · split
      · exact { h with noted := by rintro _ ⟨⟩; exact h.noted furthest hnotes }
      · exact { h with noted := by rintro _ ⟨⟩; exact h.passed }

/-- Several kinds may be noted at the cursor. -/
theorem foldl_noting (h : session.ReportedUpTo session.cursor.position) (kinds : List TokenKind) :
    (kinds.foldl Session.noting session).ReportedUpTo
      (kinds.foldl Session.noting session).cursor.position := by
  induction kinds generalizing session with
  | nil => exact h
  | cons kind kinds ih => exact ih (h.noting kind)

/-- Notes may be dropped. -/
theorem dropNotesAhead (h : session.ReportedUpTo session.cursor.position) :
    (Parser.dropNotesAhead session).ReportedUpTo
      (Parser.dropNotesAhead session).cursor.position := by
  unfold Parser.dropNotesAhead
  cases session.furthest with
  | none => exact h
  | some furthest =>
    dsimp only
    split
    · exact { h with noted := nofun }
    · exact h

/-- The cursor may move on. -/
theorem moveOn (h : session.ReportedUpTo position) {cursor : TokenCursor}
    (same : cursor.tokenAt = session.cursor.tokenAt)
    (behind : session.cursor.startAt position ≤ session.cursor.startAt cursor.position) :
    ReportedUpTo { session with cursor := cursor } cursor.position := by
  have starts : cursor.startAt = session.cursor.startAt := by
    funext index
    rw [TokenCursor.startAt, TokenCursor.startAt, same]
  refine ⟨⟨h.inOrder, ?_⟩, ?_, ?_⟩
  · exact fun error found => same ▸ h.marked error found
  · exact fun error found => starts ▸ Nat.le_trans (h.passed error found) behind
  · exact fun furthest notes error found => starts ▸ h.noted furthest notes error found

/-- The cursor may move behind the current token. -/
theorem advance (h : session.ReportedUpTo session.cursor.position)
    (ascending : session.cursor.Ascending) :
    ReportedUpTo { session with cursor := session.cursor.advance }
      session.cursor.advance.position :=
  h.moveOn session.cursor.tokenAt_advance (ascending.starts session.cursor.position_le_advance)

/-- One more diagnostic may be made about the token at the position. -/
theorem push (h : session.ReportedUpTo position) {error : Diagnostic}
    (pushed : after.errors = session.errors.push error) (same : after.cursor = session.cursor)
    (marks : error.Marks (session.cursor.tokenAt position)) :
    after.Reported ∧ ∀ error ∈ after.errors.toList,
      error.span.start ≤ after.cursor.startAt position := by
  have start : error.span.start = session.cursor.startAt position := by rw [marks.span]; rfl
  rw [pushed, same, Array.toList_push]
  refine ⟨⟨?_, ?_⟩, ?_⟩
  · rw [pushed, Array.toList_push, List.pairwise_append]
    refine ⟨h.inOrder, List.pairwise_singleton _ _, fun earlier found last same => ?_⟩
    obtain rfl := List.mem_singleton.mp same
    exact start ▸ h.passed earlier found
  · rw [pushed, same, Array.toList_push]
    exact List.forall_mem_append.mpr ⟨h.marked, List.forall_mem_singleton.mpr ⟨position, marks⟩⟩
  · exact List.forall_mem_append.mpr
      ⟨h.passed, List.forall_mem_singleton.mpr (Nat.le_of_eq start)⟩

/-- A limit may end the parse. -/
theorem haltedBy (h : session.ReportedUpTo session.cursor.position) (cause : DiagnosticCause) :
    (session.haltedBy cause).Reported := by
  have pushed : (session.haltedBy cause).errors =
      session.errors.push (.atToken session.current cause) := rfl
  exact (h.push pushed rfl ⟨rfl, rfl, rfl, rfl⟩).1

/-- A failure may be reported. -/
theorem reporting (failure : Failure) (h : session.ReportedUpTo failure.position) :
    (session.reporting failure).ReportedUpTo failure.position := by
  have pushed : (session.reporting failure).errors = session.errors.push (.unexpected
      (session.cursor.tokenAt failure.position) failure.expected failure.rules.reverse) := rfl
  obtain ⟨reported, passed⟩ := h.push pushed rfl ⟨rfl, rfl, rfl, rfl⟩
  exact { reported with passed := passed, noted := nofun }

/-- A rule that failed may be closed. -/
theorem outsideFailed (h : session.ReportedUpTo position) (rule : Rule) (start : Nat) :
    (Parser.outsideFailed rule start session).ReportedUpTo position := by
  unfold Parser.outsideFailed
  split
  · exact { h with }
  · exact { h with }

end ReportedUpTo

end Session

/-! ### Runs -/

/-- Two runs end alike.  Where they succeed or fail, the diagnostics stand no later than the cursor
or the failure, and there are no new ones if the runs are quiet; where they fail for good, the
diagnostics stand in order. -/
inductive Orders {α β : Type} (V : α → β → Prop) (quiet : Prop) (before : Session) :
    EStateM.Result Failure Session α → EStateM.Result Failure Session β → Prop
  | ok {a b after} : V a b → before.Follows after → (quiet → after.errors = before.errors) →
      after.ReportedUpTo after.cursor.position → Orders V quiet before (.ok a after) (.ok b after)
  | error {failure after} : failure.fatal = false → before.Follows after →
      (quiet → after.errors = before.errors) → after.ReportedUpTo failure.position →
      Orders V quiet before (.error failure after) (.error failure after)
  | ended {failure after} : failure.fatal = true → before.Follows after → after.Reported →
      Orders V quiet before (.error failure after) (.error failure after)

namespace Orders

variable {α β γ δ : Type} {V : α → β → Prop} {W : γ → δ → Prop} {quiet : Prop}
  {before between after : Session}

/-- A session in front of the one where the runs started will do for the start as well. -/
theorem of_follows {r : EStateM.Result Failure Session α} {r' : EStateM.Result Failure Session β}
    (h : before.Follows between) (silent : quiet → between.errors = before.errors)
    (runs : Orders V quiet between r r') : Orders V quiet before r r' := by
  cases runs with
  | ok value follows silent' reported =>
    exact .ok value (h.trans follows) (fun still => (silent' still).trans (silent still)) reported
  | error mild follows silent' reported =>
    exact .error mild (h.trans follows) (fun still => (silent' still).trans (silent still)) reported
  | ended fatal follows reported => exact .ended fatal (h.trans follows) reported

/-- Less may be claimed to be quiet. -/
theorem mono {quiet' : Prop} {r : EStateM.Result Failure Session α}
    {r' : EStateM.Result Failure Session β}
    (runs : Orders V quiet before r r') (h : quiet' → quiet) : Orders V quiet' before r r' := by
  cases runs with
  | ok value follows silent reported =>
    exact .ok value follows (fun still => silent (h still)) reported
  | error mild follows silent reported =>
    exact .error mild follows (fun still => silent (h still)) reported
  | ended fatal follows reported => exact .ended fatal follows reported

/-- Sequences end alike if their parts do. -/
theorem bind {p : Parser α} {q : Parser β} {f : α → Parser γ} {g : β → Parser δ}
    (h : Orders V quiet before (p before) (q before))
    (hf : ∀ a b after, V a b → before.Follows after → after.ReportedUpTo after.cursor.position →
      Orders W quiet after (f a after) (g b after)) :
    Orders W quiet before ((p >>= f) before) ((q >>= g) before) := by
  change Orders W quiet before (EStateM.bind p f before) (EStateM.bind q g before)
  unfold EStateM.bind
  generalize p before = result, q before = result' at h
  cases h with
  | ok value follows silent reported =>
    exact of_follows follows silent (hf _ _ _ value follows reported)
  | error mild follows silent reported => exact .error mild follows silent reported
  | ended fatal follows reported => exact .ended fatal follows reported

/-- What was known in front of an alternative that failed is known behind it. -/
theorem forgotten (h : before.ReportedUpTo before.cursor.position)
    (ascending : before.cursor.Ascending)
    (follows : before.Follows after) (silent : after.errors = before.errors) {position : Nat}
    (failed : after.ReportedUpTo position) : after.ReportedUpTo after.cursor.position := by
  refine { failed with passed := fun error found => ?_ }
  rw [silent] at found
  rw [follows.startAt]
  exact Nat.le_trans (h.passed error found) (ascending.starts follows.position)

variable {p q p' q' : Parser α} {r : Parser β}

/-- What is tried ends alike, and it is quiet. -/
theorem speculate (h : Orders V (before.trying.speculation ≠ 0) before.trying (p before.trying)
    (r before.trying)) : Orders V True before (speculate p before) (speculate r before) := by
  have trying : before.trying.speculation ≠ 0 := Nat.succ_ne_zero _
  cases run : p before.trying with
  | ok a after =>
    rw [run] at h
    rw [speculate_ok run]
    cases run' : r before.trying with
    | ok b after' =>
      rw [run'] at h
      rw [speculate_ok run']
      cases h with
      | ok value follows silent reported =>
        exact .ok value follows.settled (fun _ => silent trying) { reported with }
    | error failure after' => rw [run'] at h; cases h
  | error failure after =>
    rw [run] at h
    rw [speculate_error run]
    cases run' : r before.trying with
    | ok b after' => rw [run'] at h; cases h
    | error failure' after' =>
      rw [run'] at h
      rw [speculate_error run']
      cases h with
      | error mild follows silent reported =>
        exact .error mild follows.settled (fun _ => silent trying) { reported with }
      | ended fatal follows reported => exact .ended fatal follows.settled { reported with }

/-- Alternatives end alike, and they are quiet. -/
theorem alternative (h : Orders V (before.trying.speculation ≠ 0) before.trying (p before.trying)
    (r before.trying)) : Orders V True before (alternative p before) (alternative r before) := by
  refine bind h.speculate fun _ _ after value _ reported => ?_
  have silent : (dropNotesAhead after).errors = after.errors := by
    unfold dropNotesAhead
    cases after.furthest with
    | none => rfl
    | some furthest => dsimp only; split <;> rfl
  exact .ok value (.dropNotesAhead after) (fun _ => silent) reported.dropNotesAhead

section

variable (ascending : before.cursor.Ascending)
  (reported : before.ReportedUpTo before.cursor.position)
  (hp : Orders Eq (before.trying.speculation ≠ 0) before.trying (p before.trying)
    (p' before.trying))

include ascending reported hp

/-- Choices end alike, and they are quiet. -/
theorem firstOf
    (hq : ∀ after : Session, before.Follows after → after.ReportedUpTo after.cursor.position →
      Orders Eq (after.trying.speculation ≠ 0) after.trying (q after.trying) (q' after.trying)) :
    Orders Eq True before (firstOf p q before) (firstOf p' q' before) := by
  have tried := hp.alternative
  unfold Parser.firstOf
  generalize Parser.alternative p before = result, Parser.alternative p' before = result' at tried
  cases tried with
  | ok value follows silent reported => exact .ok value follows silent reported
  | @error failure after mild follows silent failed =>
    simp only [mild, Bool.false_eq_true, ↓reduceIte]
    have known := forgotten reported ascending follows (silent trivial) failed
    exact of_follows follows silent (hq after follows known).alternative
  | ended fatal follows reported =>
    simp only [fatal, ↓reduceIte]
    exact .ended fatal follows reported

/-- Optional parts end alike, and they are quiet. -/
theorem optional : Orders Eq True before (optional p before) (optional p' before) := by
  have tried := hp.speculate
  unfold Parser.optional
  generalize Parser.speculate p before = result, Parser.speculate p' before = result' at tried
  cases tried with
  | ok value follows silent reported => exact .ok (congrArg some value) follows silent reported
  | error mild follows silent failed =>
    simp only [mild, Bool.false_eq_true, ↓reduceIte]
    exact .ok rfl follows silent (forgotten reported ascending follows (silent trivial) failed)
  | ended fatal follows reported =>
    simp only [fatal, ↓reduceIte]
    exact .ended fatal follows reported

end

/-- A failure is passed on, or it is reported and survived where nothing is tried, or its report
ends the parse. -/
theorem recoverFrom {failure : Failure} (sync : List TokenKind) (mild : failure.fatal = false)
    (ascending : before.cursor.Ascending) (reported : before.ReportedUpTo failure.position) :
    Orders Eq (before.speculation ≠ 0) before (recoverFrom failure sync before)
      (recoverFrom failure sync before) := by
  have follows : before.Follows (before.reporting failure) := .reporting before failure
  rw [recoverFrom_run]
  split
  · exact .error mild (.refl before) (fun _ => rfl) reported
  · next recovers =>
    have loud : ¬before.speculation ≠ 0 := by
      simp only [mild, Session.canRecover, Bool.false_or, Bool.not_eq_true', Bool.not_eq_false,
        Bool.and_eq_true, beq_iff_eq] at recovers
      exact fun trying => trying recovers.1.1.2
    have pushed := reported.reporting failure
    dsimp only
    split
    · exact .ended rfl follows pushed.toReported
    · have behind := follows.ascending ascending
      refine .ok rfl (follows.trans (.moveTo _ (Nat.le_add_right _ _)))
        (fun trying => absurd trying loud) ?_
      exact pushed.moveOn rfl (behind.startAt_resynchronized sync failure.position)

/-- Parsers whose failures are survived end alike. -/
theorem orRecover (sync : List TokenKind) (ifFailed : α) (ascending : before.cursor.Ascending)
    (h : Orders Eq (before.speculation ≠ 0) before (p before) (p' before)) :
    Orders Eq (before.speculation ≠ 0) before (orRecover p sync ifFailed before)
      (orRecover p' sync ifFailed before) := by
  unfold Parser.orRecover
  generalize p before = result, p' before = result' at h
  cases h with
  | ok value follows silent reported => exact .ok value follows silent reported
  | @error failure after mild follows silent failed =>
    have recovered := recoverFrom sync mild (follows.ascending ascending) failed
    have goesOn :=
      bind (f := fun _ => pure ifFailed) (g := fun _ => pure ifFailed) (W := Eq) recovered
      fun _ _ after _ _ reported => .ok rfl (.refl after) (fun _ => rfl) reported
    exact of_follows follows silent (goesOn.mono fun trying => follows.speculation ▸ trying)
  | @ended failure after fatal follows reported =>
    have passed : (do Parser.recoverFrom failure sync; pure ifFailed : Parser α) after =
        .error failure after := by
      change EStateM.bind (Parser.recoverFrom failure sync) _ after = _
      unfold EStateM.bind
      rw [recoverFrom_run, fatal, Bool.true_or]
      rfl
    dsimp only
    rw [passed]
    exact .ended fatal follows reported

/-- Rules end alike if their bodies do. -/
theorem nested (rule : Rule)
    (h : Orders V (before.speculation ≠ 0) (inside rule before) (p (inside rule before))
      (r (inside rule before))) :
    Orders V (before.speculation ≠ 0) before (nested rule p before) (nested rule r before) := by
  unfold Parser.nested
  generalize p (inside rule before) = result, r (inside rule before) = result' at h
  cases h with
  | ok value follows silent reported => exact .ok value follows.outside silent { reported with }
  | @error failure after mild follows silent reported =>
    refine .error mild follows.outsideFailed (fun trying => Eq.trans ?_ (silent trying))
      (reported.outsideFailed rule _)
    unfold Parser.outsideFailed
    split <;> rfl
  | @ended failure after fatal follows reported =>
    refine .ended fatal follows.outsideFailed ?_
    unfold Parser.outsideFailed
    split
    · exact { reported with }
    · exact { reported with }

/-- The budget ends both runs or none. -/
theorem countRule (rule : Rule) (reported : before.ReportedUpTo before.cursor.position) :
    Orders Eq quiet before (countRule rule before) (countRule rule before) := by
  unfold Grammar.countRule
  split
  · rw [countInvocation_run]
    split
    · exact .ended rfl (.refl before) reported.toReported
    · have counted : before.Follows before.counted := .counted before
      have reported : before.counted.ReportedUpTo before.counted.cursor.position :=
        { reported with }
      cases overBudget before.counted with
      | some limit => exact .ended rfl (counted.trans (.haltedBy _ _ rfl)) (reported.haltedBy _)
      | none => exact .ok rfl counted (fun _ => rfl) reported
  · exact .ok rfl (.refl before) (fun _ => rfl) reported

/-- A refusal to nest deeper ends both runs. -/
theorem refuseDepth (reported : before.ReportedUpTo before.cursor.position) :
    Orders V quiet before (refuseDepth before) (refuseDepth before) := by
  rw [refuseDepth_run, refuseDepth_run]
  dsimp only
  split
  · exact .ended rfl (.refl before) reported.toReported
  · exact .ended rfl (.haltedBy before _ rfl) (reported.haltedBy _)

end Orders

/-! ### The grammar -/

/-- The order of the diagnostics is kept by the ways to combine parsers. -/
def orderingParsers : NotingRelation where
  rel V p q := ∀ before : Session, before.cursor.Ascending →
    before.ReportedUpTo before.cursor.position →
      Orders V (before.speculation ≠ 0) before (p before) (q before)
  rel_pure value := fun before _ reported => .ok value (.refl before) (fun _ => rfl) reported
  rel_bind hp hf := fun before ascending reported =>
    (hp before ascending reported).bind fun a b after value follows reported =>
      (hf a b value after (follows.ascending ascending) reported).mono fun trying =>
        follows.speculation ▸ trying
  rel_currentKind := fun before _ reported => .ok rfl (.refl before) (fun _ => rfl) reported
  rel_nextKind := fun before _ reported => .ok rfl (.refl before) (fun _ => rfl) reported
  rel_kindsAhead := fun before _ reported => .ok rfl (.refl before) (fun _ => rfl) reported
  rel_remaining := fun before _ reported => .ok rfl (.refl before) (fun _ => rfl) reported
  rel_precedence := fun before _ reported => .ok rfl (.refl before) (fun _ => rfl) reported
  rel_advance := fun before ascending reported =>
    .ok trivial (.advance before) (fun _ => rfl) (reported.advance ascending)
  rel_noteAll kinds := fun before _ reported =>
    .ok rfl (.foldl_noting kinds before) (fun _ => before.errors_foldl_noting kinds)
      (reported.foldl_noting kinds)
  rel_fail := fun before _ reported =>
    .error before.failure_fatal (.refl before) (fun _ => rfl) reported.failure
  rel_firstOf hp hq := fun before ascending reported =>
    (Orders.firstOf ascending reported (hp before.trying ascending { reported with })
      fun after follows reported =>
        hq after.trying (follows.ascending ascending) { reported with }).mono fun _ => trivial
  rel_optional hp := fun before ascending reported =>
    (Orders.optional ascending reported (hp before.trying ascending { reported with })).mono
      fun _ => trivial
  rel_orRecover sync ifFailed hp := fun before ascending reported =>
    .orRecover sync ifFailed ascending (hp before ascending reported)

/-- The order of the diagnostics is kept by the grammar. -/
def ordering : Congruence :=
  orderingParsers.toCongruence
    (fun before _ reported => .ok rfl (.refl before) (fun _ => rfl) reported)
    (fun before ascending reported =>
      .ok rfl (.advance before) (fun _ => rfl) (reported.advance ascending))
    (fun before _ reported => .ok rfl (.refl before) (fun _ => rfl) reported)

/-- The order of the diagnostics is kept by every rule. -/
theorem apply_ordering (lookahead : Bool) (allowance : Nat) (rule : Rule) :
    ordering.rel Eq (apply lookahead allowance rule) (apply lookahead allowance rule) := by
  induction allowance generalizing rule with
  | zero =>
    intro before ascending reported
    exact (Orders.countRule rule reported).bind fun _ _ after _ _ reported => .refuseDepth reported
  | succ allowance ih =>
    intro before ascending reported
    refine (Orders.countRule rule reported).bind fun _ _ after _ follows reported => ?_
    have body := ordering.rel_body ih lookahead rule (inside rule after)
      (follows.ascending ascending) { reported with }
    exact (Orders.nested rule body).mono fun trying => follows.speculation ▸ trying

/-! ### Statements -/

namespace Session

variable {session : Session}

/-- Whatever follows a query, the diagnostics stay in order. -/
theorem ReportedUpTo.finished (h : session.ReportedUpTo session.cursor.position)
    (ascending : session.cursor.Ascending) : session.finished.Reported := by
  have eaten : (sessionAfter (eat .semicolon session)).ReportedUpTo
      (sessionAfter (eat .semicolon session)).cursor.position := by
    rw [eat_run]
    split
    · exact h.advance ascending
    · exact h.noting .semicolon
  unfold Session.finished
  dsimp only
  split
  · exact eaten.toReported
  · exact ((eaten.noting .eof).failure.reporting _).toReported

/-- The diagnostics of a statement stand in order, each of them at a token. -/
theorem reported_parse (ascending : session.cursor.Ascending)
    (reported : session.ReportedUpTo session.cursor.position) :
    (session.parse.errors.Pairwise fun first second => first.span.start ≤ second.span.start) ∧
      ∀ error ∈ session.parse.errors,
        ∃ position, error.Marks (session.cursor.tokenAt position) := by
  have known {after : Session} (follows : session.Follows after) (reported : after.Reported) :
      (after.errors.toList.Pairwise fun first second => first.span.start ≤ second.span.start) ∧
        ∀ error ∈ after.errors.toList,
          ∃ position, error.Marks (session.cursor.tokenAt position) := by
    exact ⟨reported.inOrder, follows.tokenAt ▸ reported.marked⟩
  cases short : session.tokenLimit? with
  | some error =>
    rw [parse, parseWith, short]
    refine ⟨List.pairwise_singleton _ _, List.forall_mem_singleton.mpr ?_⟩
    obtain ⟨limit, _, passed⟩ := Option.bind_eq_some_iff.mp short
    obtain ⟨_, _, made⟩ := Option.bind_eq_some_iff.mp passed
    cases made
    exact ⟨limit, rfl, rfl, rfl, rfl⟩
  | none =>
    have runs : Orders Eq (session.speculation ≠ 0) session (applyRule .query session)
        (applyRule .query session) :=
      apply_ordering true session.settings.maxDepth .query session ascending reported
    generalize run : applyRule .query session = result at runs
    cases runs with
    | @ok tree _ after _ follows _ reported =>
      rw [parse_of_ok short run]
      split
      · exact known follows reported.toReported
      · exact known (follows.trans (.finished after))
          (reported.finished (follows.ascending ascending))
    | @error failure after mild follows _ reported =>
      rw [parse_of_error short run, mild]
      exact known (follows.trans (.reporting after failure)) (reported.reporting failure).toReported
    | ended fatal follows reported =>
      rw [parse_of_error short run, fatal]
      exact known follows reported

/-- Whatever follows a query, the diagnostics name what was expected. -/
theorem Telling.finished (h : session.Telling) : session.finished.Telling := by
  have eaten : (sessionAfter (eat .semicolon session)).Telling := by
    rw [eat_run]
    split
    · exact { h with }
    · exact h.noting .semicolon
  unfold Session.finished
  dsimp only
  split
  · exact eaten
  · exact (eaten.noting .eof).reporting ((eaten.noting .eof).failure (noted_noting _ .eof))

/-- The diagnostics of a statement name what was expected. -/
theorem telling_parse {place : Place} (at' : session.At place) (telling : session.Telling) :
    ∀ error ∈ session.parse.errors, error.Telling := by
  cases short : session.tokenLimit? with
  | some error =>
    obtain ⟨limit, _, passed⟩ := Option.bind_eq_some_iff.mp short
    obtain ⟨_, _, made⟩ := Option.bind_eq_some_iff.mp passed
    cases made
    rw [parse, parseWith, short]
    exact List.forall_mem_singleton.mpr fun _ named => by cases named
  | none =>
    have granted := granted_query at' telling
    generalize run : applyRule .query session = result at granted
    cases granted with
    | @ok tree after _ telling _ =>
      rw [parse_of_ok short run]
      split
      · exact telling.errors
      · exact telling.finished.errors
    | @error failure after _ telling tells =>
      rw [parse_of_error short run]
      cases fatal : failure.fatal with
      | true => exact telling.errors
      | false => exact (telling.reporting (tells fatal)).errors

end Session

/-! ### Texts -/

/-- A token at a position is one of the tokens, or the end marker. -/
theorem TokenCursor.tokenAt_mem (cursor : TokenCursor) (position : Nat) :
    cursor.tokenAt position ∈ cursor.tokens.toList ++ [cursor.final] := by
  unfold tokenAt
  by_cases inside : position < cursor.tokens.size
  · rw [Array.getElem?_eq_getElem inside, Option.getD_some]
    exact List.mem_append_left _ (Array.getElem_mem_toList inside)
  · rw [Array.getElem?_eq_none (Nat.le_of_not_lt inside), Option.getD_none]
    exact List.mem_append_right _ (List.mem_singleton_self _)

/-- The tokens of a text stand in its order, and so they do behind a cursor. -/
theorem TokenCursor.Ascending.of_pairwise {front : List Token} {last : Token}
    (final : last.kind = .eof)
    (inner : ∀ token ∈ front, token.kind ≠ .eof)
    (starts : (front ++ [last]).Pairwise fun first second => first.span.start ≤ second.span.start) :
    Ascending ⟨front.toArray, last, 0⟩ := by
  obtain ⟨inOrder, _, behind⟩ := List.pairwise_append.mp starts
  refine ⟨final, fun first second le => ?_, inner⟩
  rcases Nat.lt_or_ge second front.length with inside | beyond
  · rcases Nat.eq_or_lt_of_le le with rfl | less
    · exact Nat.le_refl _
    · have ordered := List.pairwise_iff_getElem.mp inOrder first second
        (less.trans inside) inside less
      simpa [startAt, tokenAt, inside, less.trans inside] using ordered
  · have reached : startAt ⟨front.toArray, last, 0⟩ second = last.span.start :=
      startAt_of_size_le (by simpa using beyond)
    rw [reached]
    rcases List.mem_append.mp (tokenAt_mem ⟨front.toArray, last, 0⟩ first) with earlier | same
    · exact behind _ earlier last (List.mem_singleton_self last)
    · exact Nat.le_of_eq (congrArg (·.span.start) (List.mem_singleton.mp same))

end Adql
