import Adql.Proofs.Furthest.Moments
import Mathlib.Order.Bounds.Basic

/-!
# The furthest notes are exact

At every moment of a run, a session keeps either no notes at all, and then none was made since they were
last dropped, or the ones about the greatest position: that position, all kinds that were noted there,
and the rules that were active at the first of these notes (`Furthest.Records`).  Notes are dropped when
a failure is reported, and when an alternative of a choice succeeds in front of some of them
(`notesAfter`).

What one moment does to the notes is said in `Session.Recalls`, one lemma for each event.  By induction
over the moments of a run, the sessions recall the notes all the way (`RunsThrough.recounts`), and a
failure that a rule returns carries the notes of the moment at which it was built.
-/

namespace Adql

open Adql.Parser Adql.Grammar

/-! ### Notes -/

/-- The notes that count after an event.  A choice drops them if some of them are behind its end. -/
def notesAfter (notes : List Note) : NoteEvent → List Note
  | .noted note => notes ++ [note]
  | .chosen position => if notes.any fun note => position < note.position then [] else notes
  | .reported => []
  | .failed | .returned _ | .other => notes

/-- The notes that were made since notes were last dropped. -/
def notesSince (moments : List Moment) : List Note :=
  moments.foldl (fun notes moment => notesAfter notes moment.event) []

/-- One more moment. -/
@[simp] theorem notesSince_concat (moments : List Moment) (moment : Moment) :
    notesSince (moments ++ [moment]) = notesAfter (notesSince moments) moment.event := by
  rw [notesSince, notesSince, List.foldl_append]
  rfl

/-- What a session keeps of the notes: those at the greatest position. -/
structure Furthest.Records (furthest : Furthest) (notes : List Note) : Prop where
  /-- The position is the greatest one. -/
  greatest : IsGreatest {position | ∃ note ∈ notes, note.position = position} furthest.position
  /-- The kinds are those that were noted there. -/
  expected : ∀ kind, kind ∈ furthest.expected ↔
    ∃ note ∈ notes, note.position = furthest.position ∧ note.kind = kind
  /-- The rules are those that were active at the first note there. -/
  rules : (notes.find? fun note => note.position = furthest.position).map Note.rules =
    some furthest.rules

/-- The failure carries what the session keeps of the notes; without notes, it carries the position of
the cursor and no kinds. -/
def Failure.Carries (failure : Failure) (session : Session) : Prop :=
  match session.furthest with
  | some furthest => failure = ⟨furthest.position, furthest.expected, furthest.rules, false⟩
  | none => failure = ⟨session.cursor.position, .empty, [], false⟩

/-- The moment is the last one at which a failure was built, and the failure carries what the session
kept of the notes then. -/
def Failure.BuiltIn (failure : Failure) (moments : List Moment) : Prop :=
  ∃ before built later, moments = before ++ built :: later ∧ built.event = .failed ∧
    (∀ moment ∈ later, moment.event ≠ .failed) ∧ failure.Carries built.session

/-- At a moment, the session keeps exactly what it should of the notes, and a failure that a rule returns
then carries what was kept when it was built. -/
structure Moment.Exact (past : List Moment) (moment : Moment) : Prop where
  /-- Nothing is kept if there are no notes. -/
  empty : moment.session.furthest = none → notesSince (past ++ [moment]) = []
  /-- What is kept are the notes at the greatest position. -/
  records : ∀ furthest, moment.session.furthest = some furthest →
    furthest.Records (notesSince (past ++ [moment]))
  /-- The position is one of a token. -/
  inside : ∀ furthest, moment.session.furthest = some furthest →
    furthest.position < moment.session.cursor.size
  /-- A failure carries what was kept when it was built. -/
  carries : ∀ failure, moment.event = .returned failure → failure.fatal = false →
    failure.BuiltIn past

namespace Furthest.Records

variable {furthest : Furthest} {notes : List Note}

/-- The first note of all. -/
theorem first (note : Note) :
    (Furthest.mk note.position (.singleton note.kind) note.rules).Records [note] where
  greatest := ⟨⟨note, List.mem_singleton_self note, rfl⟩, by
    rintro _ ⟨other, listed, rfl⟩
    rw [List.mem_singleton.mp listed]⟩
  expected kind := by simp [KindSet.mem_singleton, eq_comm]
  rules := by simp

/-- A note in front of the position does not count. -/
theorem before (h : furthest.Records notes) (note : Note) (earlier : note.position < furthest.position) :
    furthest.Records (notes ++ [note]) where
  greatest := by
    obtain ⟨⟨found, listed, here⟩, greatest⟩ := h.greatest
    refine ⟨⟨found, List.mem_append_left _ listed, here⟩, ?_⟩
    rintro _ ⟨other, listed', rfl⟩
    rcases List.mem_append.mp listed' with old | new
    · exact greatest ⟨other, old, rfl⟩
    · rw [List.mem_singleton.mp new]
      exact Nat.le_of_lt earlier
  expected kind := by
    have elsewhere : note.position ≠ furthest.position := Nat.ne_of_lt earlier
    simp [h.expected, or_and_right, exists_or, elsewhere]
  rules := by
    rw [List.find?_append, Option.map_or, h.rules]
    rfl

/-- A note at the position adds its kind. -/
theorem joined (h : furthest.Records notes) (note : Note) (here : note.position = furthest.position) :
    { furthest with expected := furthest.expected.insert note.kind : Furthest }.Records
      (notes ++ [note]) where
  greatest := by
    obtain ⟨⟨found, listed, there⟩, greatest⟩ := h.greatest
    refine ⟨⟨found, List.mem_append_left _ listed, there⟩, ?_⟩
    rintro _ ⟨other, listed', rfl⟩
    rcases List.mem_append.mp listed' with old | new
    · exact greatest ⟨other, old, rfl⟩
    · rw [List.mem_singleton.mp new]
      exact Nat.le_of_eq here
  expected kind := by
    simp [KindSet.mem_insert, h.expected, or_and_right, exists_or, here, or_comm, eq_comm]
  rules := by
    rw [List.find?_append, Option.map_or, h.rules]
    rfl

/-- A note behind the position takes its place. -/
theorem beyond (h : furthest.Records notes) (note : Note) (later : furthest.position < note.position) :
    (Furthest.mk note.position (.singleton note.kind) note.rules).Records (notes ++ [note]) where
  greatest := by
    refine ⟨⟨note, List.mem_append_right _ (List.mem_singleton_self note), rfl⟩, ?_⟩
    rintro _ ⟨other, listed, rfl⟩
    rcases List.mem_append.mp listed with old | new
    · exact Nat.le_of_lt (Nat.lt_of_le_of_lt (h.greatest.2 ⟨other, old, rfl⟩) later)
    · rw [List.mem_singleton.mp new]
  expected kind := by
    have elsewhere (other : Note) (listed : other ∈ notes) : other.position ≠ note.position :=
      Nat.ne_of_lt (Nat.lt_of_le_of_lt (h.greatest.2 ⟨other, listed, rfl⟩) later)
    simp only [KindSet.mem_singleton, List.mem_append, List.mem_singleton]
    refine ⟨fun same => ⟨note, .inr rfl, rfl, same.symm⟩, ?_⟩
    rintro ⟨other, old | rfl, there, same⟩
    · exact absurd there (elsewhere other old)
    · exact same.symm
  rules := by
    have none : notes.find? (fun other => other.position = note.position) = none := by
      refine List.find?_eq_none.mpr fun other listed => ?_
      have le := h.greatest.2 ⟨other, listed, rfl⟩
      simp only [decide_eq_true_eq]
      omega
    simp [List.find?_append, none]

end Furthest.Records

/-! ### Sessions that recall the notes -/

/-- The session keeps of the notes those at the greatest position, and its cursor is at one of the
tokens. -/
structure Session.Recalls (session : Session) (notes : List Note) : Prop where
  /-- Nothing is kept if there are no notes. -/
  empty : session.furthest = none → notes = []
  /-- What is kept are the notes at the greatest position. -/
  records : ∀ furthest, session.furthest = some furthest → furthest.Records notes
  /-- All notes are about tokens. -/
  bounded : ∀ note ∈ notes, note.position ≤ session.cursor.tokens.size
  /-- The cursor is at one of the tokens. -/
  inside : session.cursor.Inside

namespace Session.Recalls

variable {session after : Session} {notes : List Note}

/-- At first there are no notes. -/
theorem ofTokens (tokens : List Token) (settings : Settings) :
    (Session.ofTokens tokens settings).Recalls [] :=
  ⟨fun _ => rfl, nofun, nofun, .ofTokens tokens⟩

/-- What leaves the notes alone. -/
theorem of_quietly (h : session.Recalls notes) (quiet : session.Quietly after) :
    after.Recalls notes where
  empty none := h.empty (quiet.furthest ▸ none)
  records furthest some := h.records furthest (quiet.furthest ▸ some)
  bounded := quiet.tokens ▸ h.bounded
  inside := quiet.inside h.inside

/-- Another record of notes that are about tokens. -/
theorem with_furthest {furthest : Furthest} (h : session.Recalls notes) {notes' : List Note}
    (records : furthest.Records notes')
    (bounded : ∀ note ∈ notes', note.position ≤ session.cursor.tokens.size) :
    Session.Recalls { session with furthest := some furthest } notes' where
  empty := nofun
  records _ same := by
    cases same
    exact records
  bounded := bounded
  inside := h.inside

/-- A kind is noted. -/
theorem noting (h : session.Recalls notes) (kind : TokenKind) :
    (session.noting kind).Recalls (notes ++ [⟨session.cursor.position, kind, session.rules⟩]) := by
  have bounded : ∀ note ∈ notes ++ [⟨session.cursor.position, kind, session.rules⟩],
      note.position ≤ session.cursor.tokens.size := by
    intro note listed
    rcases List.mem_append.mp listed with old | new
    · exact h.bounded note old
    · rw [List.mem_singleton.mp new]
      exact h.inside.position
  unfold Session.noting
  cases found : session.furthest with
  | none =>
    obtain rfl := h.empty found
    exact h.with_furthest (.first ⟨session.cursor.position, kind, session.rules⟩) bounded
  | some furthest =>
    have records := h.records furthest found
    dsimp only
    split
    · next earlier =>
      refine ⟨fun none => ?_, fun other same => ?_, bounded, h.inside⟩
      · cases found.symm.trans none
      · cases found.symm.trans same
        exact records.before ⟨session.cursor.position, kind, session.rules⟩ earlier
    · split
      · next here =>
        exact h.with_furthest (records.joined ⟨_, kind, session.rules⟩ here) bounded
      · next behind elsewhere =>
        have later : furthest.position < session.cursor.position := by omega
        exact h.with_furthest (records.beyond ⟨_, kind, session.rules⟩ later) bounded

/-- A session without notes. -/
theorem dropped (h : session.Recalls notes) : Session.Recalls { session with furthest := none } [] :=
  ⟨fun _ => rfl, nofun, nofun, h.inside⟩

/-- An alternative of a choice succeeds. -/
theorem dropNotesAhead (h : session.Recalls notes) : (dropNotesAhead session).Recalls
    (notesAfter notes (.chosen session.cursor.position)) := by
  have ahead : (notes.any fun note => session.cursor.position < note.position) = true ↔
      ∃ note ∈ notes, session.cursor.position < note.position := by simp
  unfold Parser.dropNotesAhead notesAfter
  cases found : session.furthest with
  | none =>
    obtain rfl := h.empty found
    exact h
  | some furthest =>
    obtain ⟨⟨note, listed, there⟩, greatest⟩ := (h.records furthest found).greatest
    dsimp only
    by_cases behind : session.cursor.position < furthest.position
    · rw [if_pos behind, if_pos (ahead.mpr ⟨note, listed, there ▸ behind⟩)]
      exact h.dropped
    · have none : ¬∃ note ∈ notes, session.cursor.position < note.position :=
        fun ⟨note, listed, later⟩ =>
          behind (Nat.lt_of_lt_of_le later (greatest ⟨note, listed, rfl⟩))
      rw [if_neg behind, if_neg (mt ahead.mp none)]
      exact h

/-- A failure is reported. -/
theorem reporting (h : session.Recalls notes) (failure : Failure) :
    (session.reporting failure).Recalls [] :=
  ⟨fun _ => rfl, nofun, nofun, h.inside⟩

/-- A moment at which no failure is returned is exact if the session recalls the notes. -/
theorem exact {past : List Moment} {moment : Moment}
    (h : moment.session.Recalls (notesSince (past ++ [moment])))
    (carries : ∀ failure, moment.event = .returned failure → failure.fatal = false →
      failure.BuiltIn past) :
    moment.Exact past where
  empty := h.empty
  records := h.records
  inside furthest found := by
    obtain ⟨⟨note, listed, there⟩, -⟩ := (h.records furthest found).greatest
    exact Nat.lt_succ_of_le (there ▸ h.bounded note listed)
  carries := carries

end Session.Recalls

namespace Failure

variable {failure : Failure} {moments : List Moment}

/-- A failure that is built from the notes carries what is kept of them. -/
theorem Carries.of_session (session : Session) : session.failure.Carries session := by
  unfold Carries Session.failure
  cases session.furthest <;> rfl

/-- There may be moments before. -/
theorem BuiltIn.behind (h : failure.BuiltIn moments) (past : List Moment) :
    failure.BuiltIn (past ++ moments) := by
  obtain ⟨before, built, later, rfl, event, last, carries⟩ := h
  exact ⟨past ++ before, built, later, by rw [List.append_assoc], event, last, carries⟩

/-- There may be another moment behind, which builds no failure. -/
theorem BuiltIn.concat (h : failure.BuiltIn moments) {moment : Moment}
    (other : moment.event ≠ .failed) : failure.BuiltIn (moments ++ [moment]) := by
  obtain ⟨before, built, later, rfl, event, last, carries⟩ := h
  refine ⟨before, built, later ++ [moment], by simp, event, fun listed mem => ?_, carries⟩
  rcases List.mem_append.mp mem with old | new
  · exact last listed old
  · rwa [List.mem_singleton.mp new]

end Failure

/-! ### Runs -/

/-- All moments behind the past are exact. -/
def Recounted : (past moments : List Moment) → Prop
  | _, [] => True
  | past, moment :: moments => moment.Exact past ∧ Recounted (past ++ [moment]) moments

/-- Moments behind other ones are exact if all of them are. -/
theorem recounted_append {past moments moments' : List Moment} (h : Recounted past moments)
    (h' : Recounted (past ++ moments) moments') : Recounted past (moments ++ moments') := by
  induction moments generalizing past with
  | nil => simpa using h'
  | cons moment moments ih =>
    refine ⟨h.1, ih h.2 ?_⟩
    simpa using h'

/-- Each of the moments is exact. -/
theorem Recounted.exact {past before rest : List Moment} {moment : Moment}
    (h : Recounted past (before ++ moment :: rest)) : moment.Exact (past ++ before) := by
  induction before generalizing past with
  | nil => simpa using h.1
  | cons first before ih => simpa using ih h.2

/-- What a run leaves behind: exact moments, a session that recalls the notes and has the same tokens,
and a failure that was built at one of the moments. -/
structure Recounts {α : Type} (before : Session) (past moments : List Moment)
    (result : EStateM.Result Failure Session α) : Prop where
  /-- The moments are exact. -/
  exact : Recounted past moments
  /-- The session recalls the notes. -/
  recalls : (sessionAfter result).Recalls (notesSince (past ++ moments))
  /-- The tokens are the same. -/
  tokens : (sessionAfter result).cursor.tokens = before.cursor.tokens
  /-- The failure was built at one of the moments. -/
  built : ∀ failure after, result = .error failure after → failure.fatal = false →
    failure.BuiltIn moments

namespace Recounts

variable {α β : Type} {before middle : Session} {past moments moments' : List Moment}
  {result : EStateM.Result Failure Session α} {result' : EStateM.Result Failure Session β}

/-- A run of no moments that succeeds or fails for good. -/
theorem nothing (recalls : before.Recalls (notesSince past)) (same : sessionAfter result = before)
    (fatal : ∀ failure after, result = .error failure after → failure.fatal = true) :
    Recounts before past [] result where
  exact := trivial
  recalls := by rwa [List.append_nil, same]
  tokens := same ▸ rfl
  built failure after failed mild := by
    rw [fatal failure after failed] at mild
    cases mild

/-- A run behind another one. -/
theorem append (h : Recounts before past moments result)
    (tokens : (sessionAfter result).cursor.tokens = middle.cursor.tokens)
    (h' : Recounts middle (past ++ moments) moments' result') :
    Recounts before past (moments ++ moments') result' where
  exact := recounted_append h.exact h'.exact
  recalls := by
    rw [← List.append_assoc]
    exact h'.recalls
  tokens := h'.tokens.trans (tokens.symm.trans h.tokens)
  built failure after failed mild := (h'.built failure after failed mild).behind moments

/-- A run with one more moment, which builds no failure. -/
theorem concat (h : Recounts before past moments result)
    (result' : EStateM.Result Failure Session β) {event : NoteEvent}
    (other : event ≠ .failed)
    (recalls : (sessionAfter result').Recalls (notesAfter (notesSince (past ++ moments)) event))
    (tokens : (sessionAfter result').cursor.tokens = (sessionAfter result).cursor.tokens)
    (failed : ∀ failure after, result' = .error failure after → failure.fatal = false →
      ∃ after, result = .error failure after)
    (returned : ∀ failure, event = .returned failure → ∃ after, result = .error failure after) :
    Recounts before past (moments ++ [⟨event, sessionAfter result'⟩]) result' where
  exact := by
    refine recounted_append h.exact ⟨Session.Recalls.exact (by rwa [notesSince_concat]) fun failure same mild => ?_,
      trivial⟩
    obtain ⟨after, run⟩ := returned failure same
    exact (h.built failure after run mild).behind past
  recalls := by rwa [← List.append_assoc, notesSince_concat]
  tokens := tokens.trans h.tokens
  built failure after run mild := by
    obtain ⟨after', run'⟩ := failed failure after run mild
    exact (h.built failure after' run' mild).concat other

/-- A run with one more moment that succeeds. -/
theorem concat_ok {after : Session} {event : NoteEvent} (h : Recounts before past moments result)
    (b : β) (recalls : after.Recalls (notesAfter (notesSince (past ++ moments)) event))
    (tokens : after.cursor.tokens = (sessionAfter result).cursor.tokens)
    (other : event ≠ .failed) (quiet : ∀ failure, event ≠ .returned failure) :
    Recounts before past (moments ++ [⟨event, after⟩])
      (.ok b after : EStateM.Result Failure Session β) :=
  h.concat (.ok b after) other recalls tokens (by rintro _ _ ⟨⟩) fun failure same => absurd same (quiet failure)

/-- The same moments with another result in the same session. -/
theorem of_same (h : Recounts before past moments result)
    (same : sessionAfter result' = sessionAfter result)
    (failed : ∀ failure after, result' = .error failure after → failure.fatal = false →
      ∃ after, result = .error failure after) : Recounts before past moments result' where
  exact := h.exact
  recalls := same ▸ h.recalls
  tokens := same ▸ h.tokens
  built failure after run mild := by
    obtain ⟨after', run'⟩ := failed failure after run mild
    exact h.built failure after' run' mild

/-- The same moments with a success in the same session. -/
theorem of_ok {after : Session} (h : Recounts before past moments result) (b : β)
    (same : sessionAfter result = after) :
    Recounts before past moments (.ok b after : EStateM.Result Failure Session β) :=
  h.of_same same.symm (by rintro _ _ ⟨⟩)

/-- A run of one moment that succeeds. -/
theorem single {event : NoteEvent} {after : Session} (a : α)
    (recalls : after.Recalls (notesAfter (notesSince past) event))
    (tokens : after.cursor.tokens = before.cursor.tokens)
    (quiet : ∀ failure, event ≠ .returned failure) :
    Recounts before past [⟨event, after⟩] (.ok a after : EStateM.Result Failure Session α) where
  exact := by
    refine ⟨Session.Recalls.exact (by rwa [notesSince_concat]) fun failure same => ?_, trivial⟩
    exact absurd same (quiet failure)
  recalls := by rwa [notesSince_concat]
  tokens := tokens
  built := by rintro _ _ ⟨⟩

/-- A run of one moment at which a failure is built. -/
theorem failing (recalls : before.Recalls (notesSince past)) :
    Recounts before past [⟨.failed, before⟩]
      (.error before.failure before : EStateM.Result Failure Session α) where
  exact := by
    refine ⟨Session.Recalls.exact (by rwa [notesSince_concat]) ?_, trivial⟩
    rintro _ ⟨⟩
  recalls := by rwa [notesSince_concat]
  tokens := rfl
  built failure after run _ := by
    cases run
    have none : ∀ moment ∈ ([] : List Moment), moment.event ≠ .failed := by simp
    exact ⟨[], _, [], rfl, rfl, none, .of_session before⟩

/-- A quiet change in front of a run. -/
theorem behind (recalls : before.Recalls (notesSince past)) (quiet : before.Quietly middle)
    (h : middle.Recalls (notesSince (past ++ [⟨.other, middle⟩])) →
      Recounts middle (past ++ [⟨.other, middle⟩]) moments result) :
    Recounts before past (⟨.other, middle⟩ :: moments) result := by
  have first : Recounts before past [⟨.other, middle⟩]
      (.ok () middle : EStateM.Result Failure Session Unit) :=
    .single () (recalls.of_quietly quiet) quiet.tokens (by rintro _ ⟨⟩)
  exact first.append rfl (h first.recalls)

end Recounts

section

variable {α β : Type} {p : Parser α} {f : α → Parser β} {session after : Session} {a : α}
  {failure : Failure}

/-- A sequence goes on behind its first part. -/
theorem bind_of_ok (run : p session = .ok a after) : (p >>= f) session = f a after := by
  change EStateM.bind p f session = _
  rw [EStateM.bind, run]

/-- A sequence fails if its first part does. -/
theorem bind_of_error (run : p session = .error failure after) :
    (p >>= f) session = .error failure after := by
  change EStateM.bind p f session = _
  rw [EStateM.bind, run]

end

/-! ### What combined parsers do -/

section

variable {α : Type} {p q : Parser α} {session after : Session} {failure : Failure}

/-- A choice is decided by its first alternative if this one does not fail, or fails for good. -/
theorem firstOf_of_decided (decided : ∀ failure after,
    alternative p session = .error failure after → failure.fatal = true) :
    firstOf p q session = alternative p session := by
  unfold firstOf
  cases run : alternative p session with
  | ok a after => rfl
  | error failure after => exact if_pos (decided failure after run)

/-- A choice goes on with its second alternative where the first one fails. -/
theorem firstOf_of_error (run : alternative p session = .error failure after)
    (mild : failure.fatal = false) : firstOf p q session = alternative q after := by
  unfold firstOf
  rw [run]
  exact if_neg (mild ▸ Bool.false_ne_true)

/-- A failure that is fatal, or where nothing recovers, is passed on. -/
theorem orRecover_of_kept {sync : List TokenKind} {ifFailed : α} (kept : ∀ failure after,
    p session = .error failure after → failure.fatal = true ∨ after.canRecover = false) :
    orRecover p sync ifFailed session = p session := by
  unfold orRecover
  cases run : p session with
  | ok a after => rfl
  | error failure after =>
    have passed : (failure.fatal || !after.canRecover) = true := by
      simpa using kept failure after run
    exact bind_of_error (by rw [recoverFrom_run, if_pos passed])

/-- Any other failure is reported, and the parse goes on, unless the report ended it. -/
theorem orRecover_of_error {sync : List TokenKind} {ifFailed : α}
    (run : p session = .error failure after) (mild : failure.fatal = false)
    (recovers : after.canRecover = true) :
    orRecover p sync ifFailed session =
      let reported := after.reporting failure
      if reported.halted then .error reported.fatality reported
      else .ok ifFailed { reported with
        cursor := reported.cursor.resynchronized sync failure.position } := by
  have goesOn : ¬(failure.fatal || !after.canRecover) = true := by
    simp [mild, recovers]
  unfold orRecover
  rw [run]
  dsimp only
  by_cases halted : (after.reporting failure).halted = true
  · rw [if_pos halted]
    exact bind_of_error (by rw [recoverFrom_run, if_neg goesOn]; exact if_pos halted)
  · rw [if_neg halted]
    exact bind_of_ok (a := ()) (by rw [recoverFrom_run, if_neg goesOn]; exact if_neg halted)

end

/-- A rule that failed is closed, and the cursor may go back to a token. -/
theorem Session.Recalls.outsideFailed {session : Session} {notes : List Note}
    (h : session.Recalls notes) (rule : Rule) {start : Nat}
    (inside : start ≤ session.cursor.tokens.size) :
    (outsideFailed rule start session).Recalls notes := by
  unfold Parser.outsideFailed
  split
  · exact h.of_quietly ⟨rfl, rfl, rfl, fun inner => ⟨inner.final, inside⟩⟩
  · exact h.of_quietly (.of_eq rfl rfl)

/-- Closing a rule that failed keeps the tokens. -/
theorem Session.tokens_outsideFailed (session : Session) (rule : Rule) (start : Nat) :
    (outsideFailed rule start session).cursor.tokens = session.cursor.tokens := by
  unfold Parser.outsideFailed
  split <;> rfl

/-! ### What combined runs leave behind -/

namespace Recounts

variable {α β : Type} {p q : Parser α} {f : α → Parser β} {rule : Rule} {session after : Session} {a : α}
  {failure : Failure} {sync : List TokenKind} {query : Parser Query} {tree : Query}
  {past moments moments' : List Moment}

/-- A sequence whose first part succeeds. -/
theorem bind_ok (run : p session = .ok a after) (first : Recounts session past moments (p session))
    (rest : after.Recalls (notesSince (past ++ moments)) →
      Recounts after (past ++ moments) moments' (f a after)) :
    Recounts session past (moments ++ moments') ((p >>= f) session) := by
  rw [run] at first
  rw [bind_of_ok run]
  exact first.append rfl (rest first.recalls)

/-- A sequence whose first part fails. -/
theorem bind_error (run : p session = .error failure after)
    (first : Recounts session past moments (p session)) :
    Recounts session past moments ((p >>= f) session) := by
  rw [run] at first
  rw [bind_of_error run]
  refine first.of_same rfl ?_
  rintro _ _ ⟨⟩ _
  exact ⟨_, rfl⟩

/-- A rule that succeeds. -/
theorem nested_ok (run : p (inside rule session) = .ok a after)
    (whole : Recounts session past moments (p (inside rule session))) :
    Recounts session past (moments ++ [⟨.other, outside rule after⟩]) (nested rule p session) := by
  have closed : nested rule p session = .ok a (outside rule after) := by
    unfold nested
    rw [run]
  rw [run] at whole
  rw [closed]
  exact whole.concat_ok a (whole.recalls.of_quietly (.of_eq rfl rfl)) rfl nofun (by rintro _ ⟨⟩)

/-- A rule that fails returns the failure. -/
theorem nested_error (run : p (inside rule session) = .error failure after)
    (here : session.cursor.Inside) (whole : Recounts session past moments (p (inside rule session))) :
    Recounts session past
      (moments ++ [⟨.returned failure, outsideFailed rule session.cursor.position after⟩])
      (nested rule p session) := by
  have closed : nested rule p session =
      .error failure (outsideFailed rule session.cursor.position after) := by
    unfold nested
    rw [run]
  rw [run] at whole
  have start : session.cursor.position ≤ after.cursor.tokens.size := by
    rw [show after.cursor.tokens = session.cursor.tokens from whole.tokens]
    exact here.position
  rw [closed]
  refine whole.concat (.error failure _) (by rintro ⟨⟩) (whole.recalls.outsideFailed rule start)
    (after.tokens_outsideFailed rule _) ?_ ?_
  · rintro _ _ ⟨⟩ _
    exact ⟨_, rfl⟩
  · rintro _ ⟨⟩
    exact ⟨_, rfl⟩

/-- A trial ends as it is tried, and is closed in any case. -/
theorem speculate (whole : Recounts session past moments (p session.trying)) :
    Recounts session past (moments ++ [⟨.other, sessionAfter (Parser.speculate p session)⟩])
      (Parser.speculate p session) := by
  cases run : p session.trying with
  | ok a after =>
    rw [run] at whole
    rw [speculate_ok run]
    exact whole.concat_ok a (whole.recalls.of_quietly (.of_eq rfl rfl)) rfl nofun (by rintro _ ⟨⟩)
  | error failure after =>
    rw [run] at whole
    rw [speculate_error run]
    refine whole.concat _ nofun (whole.recalls.of_quietly (.of_eq rfl rfl)) rfl ?_ (by rintro _ ⟨⟩)
    rintro _ _ ⟨⟩ _
    exact ⟨_, rfl⟩

/-- A choice whose second alternative is tried. -/
theorem second (run : alternative p session = .error failure after) (mild : failure.fatal = false)
    (first : Recounts session past moments (alternative p session))
    (rest : after.Recalls (notesSince (past ++ moments)) →
      Recounts after (past ++ moments) moments' (alternative q after)) :
    Recounts session past (moments ++ moments') (firstOf p q session) := by
  rw [run] at first
  rw [firstOf_of_error run mild]
  exact first.append rfl (rest first.recalls)

/-- What is optional may fail. -/
theorem optional (tried : Recounts session past moments (Parser.speculate p session)) :
    Recounts session past moments (Parser.optional p session) := by
  unfold Parser.optional
  cases run : Parser.speculate p session with
  | ok a after =>
    rw [run] at tried
    exact tried.of_ok (some a) rfl
  | error failure after =>
    rw [run] at tried
    dsimp only
    split
    · refine tried.of_same rfl ?_
      rintro _ _ ⟨⟩ _
      exact ⟨_, rfl⟩
    · exact tried.of_ok none rfl

/-- A failure is reported, and the notes are dropped with it. -/
theorem reporting {b : β} (tried : Recounts session past moments (p session))
    (run : p session = .error failure after) :
    Recounts session past (moments ++ [⟨.reported, after.reporting failure⟩])
      (.ok b (after.reporting failure) : EStateM.Result Failure Session β) := by
  rw [run] at tried
  exact tried.concat_ok b (tried.recalls.reporting failure) rfl nofun (by rintro _ ⟨⟩)

/-- A failure is reported, and the parse goes on or has come to its end. -/
theorem recover {ifFailed : α} (run : p session = .error failure after) (mild : failure.fatal = false)
    (recovers : after.canRecover = true) (tried : Recounts session past moments (p session)) :
    Recounts session past
      (moments ++ [⟨.reported, after.reporting failure⟩,
        ⟨.other, sessionAfter (orRecover p sync ifFailed session)⟩])
      (orRecover p sync ifFailed session) := by
  have reported := tried.reporting (b := ()) run
  have split (last : Moment) : moments ++ [⟨.reported, after.reporting failure⟩, last] =
      moments ++ [⟨.reported, after.reporting failure⟩] ++ [last] := by simp
  rw [split, orRecover_of_error run mild recovers]
  dsimp only
  cases halted : (after.reporting failure).halted with
  | true =>
    refine reported.concat _ nofun reported.recalls rfl ?_ (by rintro _ ⟨⟩)
    rintro _ _ ⟨⟩ ⟨⟩
  | false =>
    have resumed (inside : after.cursor.Inside) :
        (after.cursor.resynchronized sync failure.position).Inside :=
      inside.resynchronized sync failure.position
    exact reported.concat_ok ifFailed (reported.recalls.of_quietly ⟨rfl, rfl, rfl, resumed⟩) rfl nofun
      (by rintro _ ⟨⟩)

/-- A statement whose query is parsed is finished. -/
theorem statement (run : query session = .ok tree after) (running : after.halted = false)
    (first : Recounts session past moments (query session))
    (rest : after.Recalls (notesSince (past ++ moments)) →
      Recounts after (past ++ moments) moments' (Session.finish after)) :
    Recounts session past (moments ++ moments') (Session.parseStatement query session) := by
  rw [run] at first
  have rest := rest first.recalls
  rw [Session.finish_run] at rest
  have whole : Session.parseStatement query session = .ok (some tree) after.finished := by
    unfold Session.parseStatement
    rw [run]
    dsimp only
    rw [if_neg (running ▸ Bool.false_ne_true)]
    exact bind_of_ok (Session.finish_run after)
  rw [whole]
  exact (first.append rfl rest).of_ok (some tree) rfl

/-- A statement ends with its query if the parse has come to its end. -/
theorem ended (halted : ∀ tree after, query session = .ok tree after → after.halted = true)
    (fatal : ∀ failure after, query session = .error failure after → failure.fatal = true)
    (tried : Recounts session past moments (query session)) :
    Recounts session past moments (Session.parseStatement query session) := by
  unfold Session.parseStatement
  cases run : query session with
  | ok tree after =>
    rw [run] at tried
    dsimp only
    rw [if_pos (halted tree after run)]
    exact tried.of_ok none rfl
  | error failure after =>
    rw [run] at tried
    dsimp only
    rw [if_pos (fatal failure after run)]
    exact tried.of_ok none rfl

/-- A statement whose query fails reports the failure. -/
theorem refused (run : query session = .error failure after) (mild : failure.fatal = false)
    (tried : Recounts session past moments (query session)) :
    Recounts session past (moments ++ [⟨.reported, after.reporting failure⟩])
      (Session.parseStatement query session) := by
  have reported := tried.reporting (b := (none : Option Query)) run
  unfold Session.parseStatement
  rw [run]
  dsimp only
  rwa [if_neg (mild ▸ Bool.false_ne_true)]

end Recounts

namespace RunsThrough

variable {α : Type} {p : Parser α} {session : Session} {moments past : List Moment}

/-- The moments that a run goes through are exact. -/
theorem recounts (through : RunsThrough p session moments)
    (recalls : session.Recalls (notesSince past)) :
    Recounts session past moments (p session) := by
  -- the induction is on the run; what came before it is told by the past
  induction through generalizing past with
  | look same session =>
    obtain ⟨a, run⟩ := same session
    rw [run]
    exact .nothing recalls rfl (by rintro _ _ ⟨⟩)
  | step quiet session =>
    exact .single () (recalls.of_quietly (quiet session)) (quiet session).tokens (by rintro _ ⟨⟩)
  | note kind session =>
    exact .single () (recalls.noting kind) (by rw [session.cursor_noting]) (by rintro _ ⟨⟩)
  | fail session => exact .failing recalls
  | abort session =>
    refine .nothing recalls rfl fun failure after run => ?_
    cases run
    rfl
  | choose session =>
    exact .single () recalls.dropNotesAhead (by rw [session.cursor_dropNotesAhead])
      (by rintro _ ⟨⟩)
  | report session =>
    have built : Recounts session past [⟨.failed, session⟩]
        (.error session.failure session : EStateM.Result Failure Session Unit) := .failing recalls
    exact built.concat_ok () (recalls.reporting _) rfl nofun (by rintro _ ⟨⟩)
  | bind_ok run _ _ ih ih' => exact .bind_ok run (ih recalls) ih'
  | bind_error run _ ih => exact .bind_error run (ih recalls)
  | nested_ok run _ ih => exact .nested_ok run (.behind recalls (.of_eq rfl rfl) ih)
  | nested_error run _ ih =>
    exact .nested_error run recalls.inside (.behind recalls (.of_eq rfl rfl) ih)
  | speculate _ ih => exact .speculate (.behind recalls (.of_eq rfl rfl) ih)
  | first decided _ ih =>
    rw [firstOf_of_decided decided]
    exact ih recalls
  | second run mild _ _ ih ih' => exact .second run mild (ih recalls) ih'
  | optional _ ih => exact .optional (ih recalls)
  | keep kept _ ih =>
    rw [orRecover_of_kept kept]
    exact ih recalls
  | recover run mild recovers _ ih => exact .recover run mild recovers (ih recalls)
  | attempt _ ih => exact (ih recalls).of_ok () rfl
  | statement run running _ _ ih ih' => exact .statement run running (ih recalls) ih'
  | ended halted fatal _ ih => exact .ended halted fatal (ih recalls)
  | refused run mild _ ih => exact .refused run mild (ih recalls)

end RunsThrough

end Adql
