import Adql.Proofs.Composition.Conditions
import Adql.Proofs.Expected.Beyond
import Mathlib.Data.Set.Insert

/-!
# Honest parsers

A parser stands in front of some words, the front, and something else behind them.  `Offers` says of a
kind that the parser goes on with a word of that kind behind the front: there are words that start with
it and that the parser reads, up to any of the kinds that may follow it.  `Honest` says that only such
kinds are noted about the end of the front, and that the parser does the same in front of all other
kinds.

The second half is what makes the first one composable: if a parser does not offer a kind, what comes
next stands in front of the same words, whether this kind follows or what really did.
-/

namespace Adql

open Adql.Parser Adql.Grammar

variable {α β σ : Type}

/-- The parser reads a value and leaves some of the words of the front, or it stalls, with other words
behind the front. -/
def Does (p : Parser α) (front behind : List Word) : Option (α × List Word) → Prop
  | some (a, rest) => Reads p (front ++ behind) a (rest ++ behind)
  | none => Stalls p (front ++ behind)

/-- Behind the front, the parser goes on with a word of the kind, and with more words it gets to
whatever may follow. -/
def Offers (F : Set TokenKind) (p : Parser α) (front : List Word) (kind : TokenKind) : Prop :=
  ∃ word more a, word.kind = kind ∧ (∀ next ∈ word :: more, next.Spelled) ∧
    ∀ behind, firstKind behind ∈ F → Reads p (front ++ word :: (more ++ behind)) a behind

/-- There are words that the parser reads, up to whatever may follow; they, or what follows them, start
with one of the kinds. -/
def Closes (G F : Set TokenKind) (p : Parser α) : Prop :=
  ∃ words a, (∀ word ∈ words, word.Spelled) ∧ ∀ behind, firstKind behind ∈ F →
    firstKind (words ++ behind) ∈ G ∧ Reads p (words ++ behind) a behind

/-- A session stands in front of the front, which ends at a position. -/
structure Session.Splits (session : Session) (front behind : List Word) (position : Nat) :
    Prop where
  /-- The words are ahead. -/
  faces : session.Faces (front ++ behind) .adql fun _ => True
  /-- The front ends at the position. -/
  ends : session.cursor.position + front.length = position

/-- A run notes only offered kinds about a position, and a value either leaves the position behind or
is the expected one. -/
structure Gets (offered : TokenKind → Prop) (outcome : Option (α × List Word)) (behind : List Word)
    (position : Nat) (before : Session) (result : EStateM.Result Failure Session α) : Prop where
  /-- What is noted about the position was noted before or is offered. -/
  noted : ∀ kind ∈ (sessionAfter result).notedAt position,
    kind ∈ before.notedAt position ∨ offered kind
  /-- A value leaves the position behind or is the expected one. -/
  passed : ∀ a after, result = .ok a after → position < after.cursor.position ∨
    ∃ rest, outcome = some (a, rest) ∧ after.Splits rest behind position

/-- A parser in front of words does what is expected of it in front of all kinds that it does not offer,
and notes only kinds that it offers.  Some loose kinds may be noted besides where everything is
read. -/
structure Honest (F : Set TokenKind) (p : Parser α) (front : List Word)
    (outcome : Option (α × List Word)) (loose : Set TokenKind := ∅) : Prop where
  /-- Words of the front are left. -/
  shorter : ∀ a rest, outcome = some (a, rest) → rest.length ≤ front.length
  /-- What is not offered does not matter. -/
  steady : ∀ kind, Offers F p front kind ∨
    ∀ behind, firstKind behind = kind → Does p front behind outcome
  /-- Only what is offered is noted. -/
  gets : ∀ session behind position, session.Splits front behind position →
    Gets (fun kind => Offers F p front kind ∨ kind ∈ loose ∧ ∃ a, outcome = some (a, []))
      outcome behind position session (p session)

/-- In front of a kind, the parser takes the word, and notes nothing else. -/
def Takes (kind : TokenKind) (p : Parser α) : Prop :=
  ∀ session behind position, session.Splits [] behind position → firstKind behind = kind →
    Gets (· = kind) none behind position session (p session)

/-- Where a value is read in front of the front alone, it is read whatever stands behind the front. -/
def Definite (p : Parser α) : Prop :=
  ∀ (front rest : List Word) (a : α), Reads p front a rest →
    ∀ behind, Reads p (front ++ behind) a (rest ++ behind)

/-- Behind a position nothing is noted about it, and in front of fewer words than the size the parser is
honest. -/
structure Helpful (size : Nat) (F : Set TokenKind) (p : Parser α) : Prop where
  /-- Behind a position nothing is noted about it. -/
  beyond : Beyond p
  /-- In front of few words, the parser is honest. -/
  honest : ∀ front, front.length < size → ∃ outcome, Honest F p front outcome

/-- A helpful parser that something may stand in front of, which starts with one of the kinds. -/
structure Ready (size : Nat) (G F : Set TokenKind) (p : Parser α) : Prop
    extends Helpful size F p where
  /-- There is something to be read. -/
  closes : Closes G F p

namespace Session.Splits

variable {session after : Session} {front rest behind : List Word} {word : Word} {position : Nat}

/-- What a rule does besides moving the cursor changes nothing. -/
theorem of_eq (h : session.Splits front behind position) (cursor : after.cursor = session.cursor)
    (settings : after.settings = session.settings) (halted : after.halted = session.halted)
    (errors : after.errors = session.errors) : after.Splits front behind position :=
  ⟨h.faces.of_eq cursor settings halted errors, cursor ▸ h.ends⟩

/-- Noting a kind changes nothing. -/
theorem noting (h : session.Splits front behind position) (kind : TokenKind) :
    (session.noting kind).Splits front behind position :=
  ⟨h.faces.noting kind, (cursor_noting session kind).symm ▸ h.ends⟩

/-- Behind the first word, the cursor is one position further. -/
theorem position_advance {words : List Word} {good : Word → Prop}
    (h : session.Faces (word :: words) .adql good) :
    session.cursor.advance.position = session.cursor.position + 1 := by
  have length := h.remaining
  have inside : session.cursor.position < session.cursor.tokens.size := by
    rw [TokenCursor.remaining, List.length_cons] at length
    omega
  rw [TokenCursor.advance, if_pos inside]

/-- Behind the first word, the rest of the front is ahead. -/
theorem advance (h : session.Splits (word :: front) behind position) :
    Splits { session with cursor := session.cursor.advance } front behind position := by
  have ends := h.ends
  have moved : session.cursor.advance.position + front.length = position := by
    rw [position_advance h.faces]
    rw [List.length_cons] at ends
    omega
  exact ⟨h.faces.advance, moved⟩

/-- Behind the first word behind the front, the position is left behind. -/
theorem advance_behind (h : session.Splits [] (word :: behind) position) :
    position < session.cursor.advance.position := by
  have ends := h.ends
  rw [position_advance h.faces]
  rw [List.length_nil] at ends
  omega

/-- Inside the front, nothing is noted about its end. -/
theorem noted_noting {kind other : TokenKind} (h : session.Splits (word :: front) behind position)
    (noted : other ∈ (session.noting kind).notedAt position) : other ∈ session.notedAt position := by
  refine (mem_notedAt_noting noted).resolve_right fun ⟨here, _⟩ => ?_
  have ends := h.ends
  rw [List.length_cons] at ends
  omega

/-- Inside the front, nothing is noted about its end by noting several kinds. -/
theorem noted_foldl_noting {kinds : List TokenKind} {other : TokenKind}
    (h : session.Splits (word :: front) behind position)
    (noted : other ∈ (kinds.foldl Session.noting session).notedAt position) :
    other ∈ session.notedAt position := by
  refine (mem_notedAt_foldl_noting noted).resolve_right fun ⟨here, _⟩ => ?_
  have ends := h.ends
  rw [List.length_cons] at ends
  omega

end Session.Splits

/-! ### Offers -/

namespace Offers

variable {F G : Set TokenKind} {p q : Parser α} {f : α → Parser β} {front rest : List Word}
  {kind : TokenKind} {a : α}

/-- No end marker is offered. -/
theorem noEnd (h : Offers F p front kind) : kind ≠ .eof := by
  obtain ⟨word, more, a, same, spelled, -⟩ := h
  exact same ▸ (spelled word List.mem_cons_self).sound.kind_ne

/-- What may follow may be restricted. -/
theorem mono (h : Offers G p front kind) (sub : F ⊆ G) : Offers F p front kind := by
  obtain ⟨word, more, a, same, spelled, reads⟩ := h
  exact ⟨word, more, a, same, spelled, fun behind follows => reads behind (sub follows)⟩

/-- What the first part of a sequence offers, the sequence offers if its rest can be completed. -/
theorem bind_left (h : Offers G p front kind) (closes : ∀ a, Closes G F (f a)) :
    Offers F (p >>= f) front kind := by
  obtain ⟨word, more, a, same, spelled, reads⟩ := h
  obtain ⟨words, b, spelled', closing⟩ := closes a
  refine ⟨word, more ++ words, b, same, List.forall_mem_append.mpr ⟨spelled, spelled'⟩,
    fun behind follows => ?_⟩
  obtain ⟨next, reads'⟩ := closing behind follows
  rw [List.append_assoc]
  exact (reads _ next).bind reads'

/-- A sequence offers what its rest offers if the first part does not mind the kind. -/
theorem bind_right (h : Offers F (f a) rest kind)
    (steady : ∀ behind, firstKind behind = kind → Does p front behind (some (a, rest))) :
    Offers F (p >>= f) front kind := by
  obtain ⟨word, more, b, same, spelled, reads⟩ := h
  exact ⟨word, more, b, same, spelled, fun behind follows =>
    (steady (word :: (more ++ behind)) same).bind (reads behind follows)⟩

/-- What reads the same offers the same. -/
theorem of_reads (h : Offers F q rest kind) (reads : ∀ behind a, firstKind behind = kind → ∀ final,
    Reads q (rest ++ behind) a final → Reads p (front ++ behind) a final) :
    Offers F p front kind := by
  obtain ⟨word, more, a, same, spelled, reads'⟩ := h
  exact ⟨word, more, a, same, spelled, fun behind follows =>
    reads (word :: (more ++ behind)) a same behind (reads' behind follows)⟩

end Offers

namespace Closes

variable {F G H : Set TokenKind} {p : Parser α} {f : α → Parser β} {kind : TokenKind} {a : α}

/-- More kinds may come first, and fewer may follow. -/
theorem mono {F' : Set TokenKind} (h : Closes G F p) (first : G ⊆ H) (follows : F' ⊆ F) :
    Closes H F' p := by
  obtain ⟨words, a, spelled, closing⟩ := h
  refine ⟨words, a, spelled, fun behind next => ?_⟩
  obtain ⟨start, reads⟩ := closing behind (follows next)
  exact ⟨first start, reads⟩

/-- A value is yielded in front of whatever follows. -/
theorem pure (sub : F ⊆ G) (a : α) : Closes G F (Pure.pure a) :=
  ⟨[], a, List.forall_mem_nil _, fun behind follows => ⟨sub follows, .pure a behind⟩⟩

/-- A sequence is completed part by part. -/
theorem bind (hp : Closes G H p) (hf : ∀ a, Closes H F (f a)) : Closes G F (p >>= f) := by
  obtain ⟨words, a, spelled, closing⟩ := hp
  obtain ⟨words', b, spelled', closing'⟩ := hf a
  refine ⟨words ++ words', b, List.forall_mem_append.mpr ⟨spelled, spelled'⟩, fun behind follows => ?_⟩
  obtain ⟨next, reads'⟩ := closing' behind follows
  obtain ⟨first, reads⟩ := closing _ next
  rw [List.append_assoc]
  exact ⟨first, reads.bind reads'⟩

/-- What is offered at once completes the parser. -/
theorem of_offers (h : Offers F p [] kind) (first : kind ∈ G) : Closes G F p := by
  obtain ⟨word, more, a, rfl, spelled, reads⟩ := h
  exact ⟨word :: more, a, spelled, fun behind follows => ⟨first, reads behind follows⟩⟩

/-- What completes the parser and starts with one kind only is offered at once. -/
theorem offers (h : Closes {kind} F p) {other : TokenKind} (differs : other ≠ kind)
    (follows : other ∈ F) : Offers F p [] kind := by
  obtain ⟨words, a, spelled, closing⟩ := h
  cases words with
  | nil => exact absurd (closing [other.word] follows).1 differs
  | cons word more =>
    exact ⟨word, more, a, (closing [other.word] follows).1, spelled,
      fun behind follows => (closing behind follows).2⟩

/-- A word that is there completes a look for its kind. -/
theorem check_found {p q : Parser α} (h : Offers F p [] kind) (first : kind ∈ G) :
    Closes G F (check kind >>= fun there => if there = true then p else q) := by
  refine of_offers (h.of_reads fun behind a there final reads => ?_) first
  exact (Reads.check_true there).bind reads

/-- Without a word of the kind, what is read else completes a look for the kind. -/
theorem check_missed {p q : Parser α} (h : Closes G F q) (missing : kind ∉ G) :
    Closes G F (check kind >>= fun there => if there = true then p else q) := by
  obtain ⟨words, a, spelled, closing⟩ := h
  refine ⟨words, a, spelled, fun behind follows => ?_⟩
  obtain ⟨next, reads⟩ := closing behind follows
  have other : firstKind (words ++ behind) ≠ kind := fun same => missing (same ▸ next)
  exact ⟨next, (Reads.check_false other).bind reads⟩

end Closes

namespace Does

variable {p q : Parser α} {f : α → Parser β} {front rest behind : List Word}
  {outcome : Option (α × List Word)}

/-- What does the same in every respect does the same. -/
theorem of_reads {front' : List Word} (h : Does q front' behind outcome)
    (reads : ∀ a final, Reads q (front' ++ behind) a final → Reads p (front ++ behind) a final)
    (stalls : Stalls q (front' ++ behind) → Stalls p (front ++ behind)) :
    Does p front behind outcome := by
  cases outcome with
  | none => exact stalls h
  | some result => exact reads _ _ h

/-- A sequence does what its rest does behind its first part. -/
theorem bind {a : α} {outcome : Option (β × List Word)} (hp : Does p front behind (some (a, rest)))
    (hf : Does (f a) rest behind outcome) : Does (p >>= f) front behind outcome := by
  cases outcome with
  | none => exact .bind_right hp hf
  | some result => exact Reads.bind hp hf

end Does

/-! ### Runs -/

namespace Gets

variable {offered offered' : TokenKind → Prop} {outcome : Option (α × List Word)}
  {behind : List Word} {position : Nat} {before middle : Session}
  {result : EStateM.Result Failure Session α}

/-- More kinds may be offered. -/
theorem mono (h : Gets offered outcome behind position before result)
    (sub : ∀ kind, offered kind → offered' kind) :
    Gets offered' outcome behind position before result :=
  ⟨fun kind found => (h.noted kind found).imp_right (sub kind), h.passed⟩

/-- A run may start behind another one. -/
theorem of_noted (h : Gets offered outcome behind position middle result)
    (first : ∀ kind ∈ middle.notedAt position, kind ∈ before.notedAt position ∨ offered kind) :
    Gets offered outcome behind position before result :=
  ⟨fun kind found => (h.noted kind found).elim (first kind) .inr, h.passed⟩

/-- A run that takes the word behind the front. -/
theorem of_takes {kind : TokenKind} (h : Gets (· = kind) none behind position before result)
    (offers : offered kind) : Gets offered outcome behind position before result :=
  ⟨fun other found => (h.noted other found).imp_right fun (same : other = kind) => same ▸ offers,
    fun a after run => (h.passed a after run).imp_right fun ⟨_, nothing, _⟩ => nomatch nothing⟩

/-- A run of a sequence. -/
theorem bind {p : Parser α} {f : α → Parser β} {outcome' : Option (β × List Word)}
    (hp : Gets offered outcome behind position before (p before)) (beyond : ∀ a, Beyond (f a))
    (hf : ∀ a rest after, outcome = some (a, rest) → after.Splits rest behind position →
      Gets offered outcome' behind position after (f a after)) :
    Gets offered outcome' behind position before ((p >>= f) before) := by
  change Gets _ _ _ _ _ (EStateM.bind p f before)
  unfold EStateM.bind
  cases run : p before with
  | error failure after =>
    rw [run] at hp
    exact ⟨hp.noted, fun _ _ yielded => (nomatch yielded)⟩
  | ok a after =>
    rw [run] at hp
    rcases hp.passed a after rfl with passed | ⟨rest, same, splits⟩
    · have past := beyond a position after passed
      refine ⟨fun kind found => hp.noted kind (past.noted kind found), fun b final run' => ?_⟩
      dsimp only at run'
      rw [run'] at past
      exact .inl past.behind
    · exact (hf a rest after same splits).of_noted hp.noted

/-- A run without an expected value may have one. -/
theorem of_none (h : Gets offered none behind position before result) :
    Gets offered outcome behind position before result :=
  ⟨h.noted, fun a after run => (h.passed a after run).imp_right fun ⟨_, nothing, _⟩ => nomatch nothing⟩

/-- A parser that is tried. -/
theorem speculate {p : Parser α}
    (h : Gets offered outcome behind position before.trying (p before.trying)) :
    Gets offered outcome behind position before (speculate p before) := by
  cases run : p before.trying with
  | ok a after =>
    rw [run] at h
    rw [speculate_ok run]
    refine ⟨h.noted, fun _ _ yielded => ?_⟩
    cases yielded
    exact (h.passed a after rfl).imp_right fun ⟨rest, same, splits⟩ =>
      ⟨rest, same, splits.of_eq rfl rfl rfl rfl⟩
  | error failure after =>
    rw [run] at h
    rw [speculate_error run]
    exact ⟨h.noted, fun _ _ yielded => (nomatch yielded)⟩

/-- An alternative. -/
theorem alternative {p : Parser α}
    (h : Gets offered outcome behind position before.trying (p before.trying)) :
    Gets offered outcome behind position before (alternative p before) := by
  have tried := h.speculate
  change Gets _ _ _ _ _ (EStateM.bind (Parser.speculate p) _ before)
  unfold EStateM.bind
  cases run : Parser.speculate p before with
  | ok a after =>
    rw [run] at tried
    refine ⟨fun kind found => tried.noted kind (Session.mem_notedAt_dropNotesAhead found),
      fun _ _ yielded => ?_⟩
    cases yielded
    have cursor : (dropNotesAhead after).cursor = after.cursor := after.cursor_dropNotesAhead
    change position < (dropNotesAhead after).cursor.position ∨
      ∃ rest, _ ∧ (dropNotesAhead after).Splits rest behind position
    rw [cursor]
    exact (tried.passed a after rfl).imp_right fun ⟨rest, same, splits⟩ =>
      ⟨rest, same, splits.faces.dropNotesAhead, cursor.symm ▸ splits.ends⟩
  | error failure after =>
    rw [run] at tried
    exact ⟨tried.noted, fun _ _ yielded => (nomatch yielded)⟩

/-- A choice. -/
theorem firstOf {p q : Parser α}
    (hp : Gets offered outcome behind position before.trying (p before.trying))
    (hq : ∀ failure after, p before.trying = .error failure after → failure.fatal = false →
      Gets offered outcome behind position after.settled.trying (q after.settled.trying)) :
    Gets offered outcome behind position before (firstOf p q before) := by
  have tried := hp.alternative
  cases run : p before.trying with
  | ok a after =>
    rw [alternative_ok run] at tried
    rw [Parser.firstOf, alternative_ok run]
    exact tried
  | error failure after =>
    rw [alternative_error run] at tried
    rw [Parser.firstOf, alternative_error run]
    dsimp only
    split
    · refine ⟨tried.noted, ?_⟩
      rintro _ _ ⟨⟩
    · next alive =>
      exact (hq failure after run (Bool.eq_false_iff.mpr alive)).alternative.of_noted tried.noted

/-- A part that may be missing. -/
theorem optional {p : Parser α} {outcome' : Option (Option α × List Word)}
    (hp : Gets offered outcome behind position before.trying (p before.trying))
    (present : ∀ a rest, outcome = some (a, rest) → outcome' = some (some a, rest))
    (missing : ∀ failure after, p before.trying = .error failure after → failure.fatal = false →
      ∃ rest, outcome' = some (none, rest) ∧ after.settled.Splits rest behind position) :
    Gets offered outcome' behind position before (optional p before) := by
  have tried := hp.speculate
  cases run : p before.trying with
  | ok a after =>
    rw [speculate_ok run] at tried
    rw [Parser.optional, speculate_ok run]
    dsimp only
    refine ⟨tried.noted, ?_⟩
    rintro _ _ ⟨⟩
    rcases tried.passed a after.settled rfl with passed | ⟨rest, same, splits⟩
    · exact .inl passed
    · exact .inr ⟨rest, present a rest same, splits⟩
  | error failure after =>
    rw [speculate_error run] at tried
    rw [Parser.optional, speculate_error run]
    dsimp only
    split
    · refine ⟨tried.noted, ?_⟩
      rintro _ _ ⟨⟩
    · next alive =>
      refine ⟨tried.noted, ?_⟩
      rintro _ _ ⟨⟩
      exact .inr (missing failure after run (Bool.eq_false_iff.mpr alive))

end Gets

/-! ### Taking a word -/

namespace Takes

variable {p q : Parser α} {f : α → Parser β} {kind : TokenKind}

/-- What follows the first part of a sequence does not matter. -/
theorem bind (h : Takes kind p) (beyond : ∀ a, Beyond (f a)) : Takes kind (p >>= f) :=
  fun session behind position splits there =>
    (h session behind position splits there).bind beyond fun _ _ _ nothing => nomatch nothing

/-- The cursor moves behind the word. -/
theorem advance_bind {f : Token → Parser β} (noEnd : kind ≠ .eof) (beyond : ∀ token, Beyond (f token)) :
    Takes kind (advance >>= f) := by
  refine bind (fun session behind position splits there => ?_) beyond
  obtain ⟨word, rest, rfl, -⟩ := exists_cons_of_firstKind noEnd there
  refine ⟨fun other found => .inl found, fun token after run => .inl ?_⟩
  cases run
  exact splits.advance_behind

/-- A word of the kind is looked for. -/
theorem check_bind (h : Takes kind p) :
    Takes kind (check kind >>= fun there => if there = true then p else q) := by
  intro session behind position splits there
  have found : session.current.kind = kind := splits.faces.current_kind.trans there
  have same : (check kind >>= fun there => if there = true then p else q) session = p session := by
    change EStateM.bind _ _ session = _
    rw [EStateM.bind, check_run, if_pos found]
    rfl
  rw [same]
  exact h session behind position splits there

end Takes

/-! ### Honesty -/

namespace Honest

variable {F G loose loose' : Set TokenKind} {p q : Parser α} {f : α → Parser β}
  {front rest : List Word} {outcome : Option (α × List Word)} {kind : TokenKind} {word : Word}

/-- What may follow may be restricted. -/
theorem mono (h : Honest G p front outcome loose) (sub : F ⊆ G) :
    Honest F p front outcome loose where
  shorter := h.shorter
  steady kind := (h.steady kind).imp_left (·.mono sub)
  gets session behind position splits :=
    (h.gets session behind position splits).mono fun _ => .imp_left (·.mono sub)

/-- A value is yielded at once. -/
theorem pure (a : α) (front : List Word) :
    Honest F (Pure.pure a) front (some (a, front)) loose where
  shorter := by
    rintro _ _ ⟨⟩
    exact Nat.le_refl _
  steady _ := .inr fun _ _ => .pure a _
  gets _ _ _ splits :=
    ⟨fun _ found => .inl found, fun _ _ run => by
      cases run
      exact .inr ⟨front, rfl, splits⟩⟩

/-- A parser that fails at once. -/
theorem fail (front : List Word) : Honest F (fail : Parser α) front none where
  shorter _ _ nothing := nomatch nothing
  steady _ := .inr fun _ _ => .fail _
  gets _ _ _ _ := ⟨fun _ found => .inl found, fun _ _ yielded => (nomatch yielded)⟩

/-- What a parser notes from another session on that stands in front of the rest of the front. -/
theorem of_step (step : Session → Session) (fewer : rest.length ≤ front.length)
    (run : ∀ good behind session, session.Faces (front ++ behind) .adql good →
      p session = q (step session) ∧ (step session).Faces (rest ++ behind) .adql good)
    (splits : ∀ session behind position, session.Splits front behind position →
      (step session).Splits rest behind position ∧
        ∀ kind ∈ (step session).notedAt position, kind ∈ session.notedAt position)
    (h : Honest F q rest outcome loose) : Honest F p front outcome loose := by
  have reads (behind : List Word) (a : α) (final : List Word)
      (reads : Reads q (rest ++ behind) a final) : Reads p (front ++ behind) a final := by
    intro good session faces
    obtain ⟨same, faces'⟩ := run good behind session faces
    rw [same]
    exact reads good _ faces'
  have stalls (behind : List Word) (stalls : Stalls q (rest ++ behind)) :
      Stalls p (front ++ behind) := by
    intro good session faces
    obtain ⟨same, faces'⟩ := run good behind session faces
    rw [same]
    exact stalls good _ faces'
  have offers (kind : TokenKind) (offers : Offers F q rest kind) : Offers F p front kind :=
    offers.of_reads fun behind a _ final => reads behind a final
  refine ⟨fun a left same => (h.shorter a left same).trans fewer, fun kind => ?_,
    fun session behind position here => ?_⟩
  · exact (h.steady kind).imp (offers kind) fun steady behind first =>
      (steady behind first).of_reads (reads behind) (stalls behind)
  · obtain ⟨same, -⟩ := run _ behind session here.faces
    obtain ⟨next, noted⟩ := splits session behind position here
    rw [same]
    exact ((h.gets _ behind position next).mono fun kind => .imp_left (offers kind)).of_noted
      fun kind found => .inl (noted kind found)

/-- Parsers that run alike in front of the front are honest alike. -/
theorem congr (h : Honest F q front outcome loose)
    (run : ∀ good behind session, session.Faces (front ++ behind) .adql good →
      p session = q session) : Honest F p front outcome loose :=
  of_step id (Nat.le_refl _) (fun good behind session faces => ⟨run good behind session faces, faces⟩)
    (fun _ _ _ splits => ⟨splits, fun _ => id⟩) h

/-- Behind the first word. -/
theorem advance_bind (h : Honest F q front outcome loose) :
    Honest F (advance >>= fun _ => q) (word :: front) outcome loose :=
  of_step (fun session => { session with cursor := session.cursor.advance }) (Nat.le_succ _)
    (fun _ _ _ faces => ⟨rfl, faces.advance⟩)
    (fun _ _ _ splits => ⟨splits.advance, fun _ => id⟩) h

/-- A value that the first word tells. -/
theorem advance_pure {g : Token → α} {a : α} (same : ∀ token, token.word = word → g token = a)
    (front : List Word) :
    Honest F (advance >>= fun token => Pure.pure (g token)) (word :: front) (some (a, front)) := by
  refine (advance_bind (pure a front)).congr fun good behind session faces => ?_
  have told : g session.current = a := same _ faces.current_word
  change EStateM.Result.ok (g session.current) _ = EStateM.Result.ok a _
  rw [told]

/-- A look at the current token tells no more than the first word. -/
theorem current_bind {f : Token → Parser α}
    (same : ∀ token, token.word = word → f token = q)
    (h : Honest F q (word :: front) outcome loose) :
    Honest F (current >>= f) (word :: front) outcome loose :=
  h.congr fun _ _ session faces => congrFun (same session.current faces.current_word) session

/-- The kind of the current token is that of the first word. -/
theorem currentKind_bind {f : TokenKind → Parser α}
    (h : Honest F (f word.kind) (word :: front) outcome loose) :
    Honest F (currentKind >>= f) (word :: front) outcome loose :=
  h.congr fun _ _ session faces => congrFun (congrArg f faces.current_kind) session

/-- A word of the kind that is looked for is there. -/
theorem check_found (there : word.kind = kind) (h : Honest F p (word :: front) outcome loose) :
    Honest F (check kind >>= fun there => if there = true then p else q) (word :: front) outcome
      loose := by
  refine h.congr fun good behind session faces => ?_
  have found : session.current.kind = kind := faces.current_kind.trans there
  change EStateM.bind _ _ session = _
  rw [EStateM.bind, check_run, if_pos found]
  rfl

/-- A word of another kind than the one that is looked for is there. -/
theorem check_missed (other : word.kind ≠ kind) (h : Honest F q (word :: front) outcome loose) :
    Honest F (check kind >>= fun there => if there = true then p else q) (word :: front) outcome
      loose := by
  refine of_step (fun session => session.noting kind) (Nat.le_refl _)
    (fun good behind session faces => ⟨?_, faces.noting kind⟩)
    (fun session behind position splits => ⟨splits.noting kind, fun _ => splits.noted_noting⟩) h
  have missed : session.current.kind ≠ kind := fun same => other (faces.current_kind.symm.trans same)
  change EStateM.bind _ _ session = _
  rw [EStateM.bind, check_run, if_neg missed]
  rfl

/-- Behind the front, a kind is looked for. -/
theorem check_nil (h : Honest F q [] outcome loose) (offers : Offers F p [] kind)
    (takes : Takes kind p) :
    Honest F (check kind >>= fun there => if there = true then p else q) [] outcome loose := by
  have offered : Offers F (check kind >>= fun there => if there = true then p else q) [] kind :=
    offers.of_reads fun behind a there final reads => (Reads.check_true there).bind reads
  have others {other : TokenKind} (differs : other ≠ kind) (offers : Offers F q [] other) :
      Offers F (check kind >>= fun there => if there = true then p else q) [] other :=
    offers.of_reads fun behind a first final reads =>
      (Reads.check_false (fun same => differs (first.symm.trans same))).bind reads
  have offersAll {other : TokenKind} (offers : Offers F q [] other) :
      Offers F (check kind >>= fun there => if there = true then p else q) [] other := by
    by_cases same : other = kind
    · exact same ▸ offered
    · exact others same offers
  refine ⟨h.shorter, fun other => ?_, fun session behind position splits => ?_⟩
  · by_cases same : other = kind
    · exact .inl (same ▸ offered)
    · refine (h.steady other).imp (others same) fun steady behind first => ?_
      have missing : firstKind ([] ++ behind) ≠ kind := fun there => same (first.symm.trans there)
      exact (steady behind first).of_reads (fun a final reads => (Reads.check_false missing).bind reads)
        fun stalls => Stalls.bind_right (.check_false missing) stalls
  · by_cases there : firstKind behind = kind
    · exact (takes.check_bind session behind position splits there).of_takes (.inl offered)
    · have missed : session.current.kind ≠ kind :=
        fun same => there (splits.faces.current_kind.symm.trans same)
      have same : (check kind >>= fun there => if there = true then p else q) session =
          q (session.noting kind) := by
        change EStateM.bind _ _ session = _
        rw [EStateM.bind, check_run, if_neg missed]
        rfl
      rw [same]
      refine ((h.gets _ behind position (splits.noting kind)).mono fun _ => .imp_left offersAll).of_noted
        fun other found => ?_
      exact (Session.mem_notedAt_noting found).imp_right fun ⟨_, same⟩ => .inl (same ▸ offered)

/-- A sequence whose first part reads some of the front. -/
theorem bind {a : α} {outcome : Option (β × List Word)} (hp : Honest G p front (some (a, rest)) loose)
    (closes : ∀ a, Closes G F (f a)) (beyond : ∀ a, Beyond (f a))
    (hf : Honest F (f a) rest outcome loose')
    (resolved : rest = [] → ∀ kind ∈ loose,
      Offers F (f a) [] kind ∨ kind ∈ loose' ∧ ∃ b, outcome = some (b, [])) :
    Honest F (p >>= f) front outcome loose' := by
  have offers {kind : TokenKind} (offers : Offers F (f a) rest kind) : Offers F (p >>= f) front kind :=
    (hp.steady kind).elim (·.bind_left closes) offers.bind_right
  refine ⟨fun b left same => (hf.shorter b left same).trans (hp.shorter a rest rfl), fun kind => ?_,
    fun session behind position splits => ?_⟩
  · rcases hp.steady kind with offered | steady
    · exact .inl (offered.bind_left closes)
    · exact (hf.steady kind).imp offers fun steady' behind first =>
        (steady behind first).bind (steady' behind first)
  · refine ((hp.gets session behind position splits).mono fun kind noted => ?_).bind beyond
      fun a' rest' after same splits' => ?_
    · rcases noted with offered | ⟨found, a', same⟩
      · exact .inl (offered.bind_left closes)
      · cases same
        exact (resolved rfl kind found).imp_left offers
    · cases same
      exact (hf.gets after behind position splits').mono fun kind => .imp_left offers

/-- A sequence whose first part stalls. -/
theorem bind_stalls (hp : Honest G p front none loose) (closes : ∀ a, Closes G F (f a))
    (beyond : ∀ a, Beyond (f a)) : Honest F (p >>= f) front none loose' := by
  refine ⟨fun _ _ nothing => (nomatch nothing), fun kind => ?_, fun session behind position splits => ?_⟩
  · exact (hp.steady kind).imp (·.bind_left closes) fun steady behind first =>
      Stalls.bind_left (steady behind first)
  · refine ((hp.gets session behind position splits).mono fun kind noted => ?_).bind beyond
      fun _ _ _ nothing => nomatch nothing
    rcases noted with offered | ⟨_, _, nothing⟩
    · exact .inl (offered.bind_left closes)
    · cases nothing

/-! ### Rules -/

/-- The application of a rule is counted, and nothing else changes. -/
theorem countRule_run {session : Session} {behind : List Word} {position : Nat}
    (splits : session.Splits front behind position) (rule : Rule) :
    ∃ counted, countRule rule session = .ok () counted ∧ counted.Splits front behind position ∧
      counted.furthest = session.furthest := by
  unfold Grammar.countRule
  split
  · have unbounded : overBudget session.counted = none := by
      rw [overBudget, show session.counted.settings.ruleBudget = none from splits.faces.unbounded]
      rfl
    refine ⟨session.counted, ?_, splits.of_eq rfl rfl rfl rfl, rfl⟩
    rw [countInvocation_run, splits.faces.running, unbounded]
    rfl
  · exact ⟨session, rfl, splits, rfl⟩

/-- What the body of a rule gets, the rule gets. -/
theorem gets_apply {rule : Rule} {allowance : Nat} {offered : TokenKind → Prop}
    {outcome : Option (rule.Result × List Word)} {session : Session} {behind : List Word}
    {position : Nat} (splits : session.Splits front behind position)
    (h : ∀ session : Session, session.Splits front behind position →
      Gets offered outcome behind position session
        (body true (apply true allowance) rule session)) :
    Gets offered outcome behind position session (apply true (allowance + 1) rule session) := by
  obtain ⟨counted, run, splits', furthest⟩ := countRule_run splits rule
  have same : apply true (allowance + 1) rule session =
      nested rule (body true (apply true allowance) rule) counted := by
    change EStateM.bind (countRule rule) _ session = _
    rw [EStateM.bind, run]
  have inner := h (inside rule counted) (splits'.of_eq rfl rfl rfl rfl)
  have before : (inside rule counted).notedAt position = session.notedAt position := by
    rw [Session.notedAt, Session.notedAt, ← furthest]
    rfl
  rw [same, nested]
  cases result : body true (apply true allowance) rule (inside rule counted) with
  | ok value after =>
    rw [result] at inner
    refine ⟨fun kind found => before ▸ inner.noted kind found, ?_⟩
    rintro _ _ ⟨⟩
    rcases inner.passed value after rfl with passed | ⟨rest, same, splits⟩
    · exact .inl passed
    · exact .inr ⟨rest, same, splits.of_eq rfl rfl rfl rfl⟩
  | error failure after =>
    rw [result] at inner
    refine ⟨fun kind found => before ▸ inner.noted kind ?_, ?_⟩
    · dsimp only [sessionAfter] at found ⊢
      unfold outsideFailed at found
      split at found
      · exact found
      · exact found
    · rintro _ _ ⟨⟩

/-- A rule is as honest as its body. -/
theorem apply {rule : Rule} {allowance : Nat} {outcome : Option (rule.Result × List Word)}
    (h : Honest F (body true (apply true allowance) rule) front outcome loose) :
    Honest F (Grammar.apply true (allowance + 1) rule) front outcome loose := by
  have offers {kind : TokenKind}
      (offers : Offers F (body true (Grammar.apply true allowance) rule) front kind) :
      Offers F (Grammar.apply true (allowance + 1) rule) front kind :=
    offers.of_reads fun _ _ _ _ => Reads.apply
  refine ⟨h.shorter, fun kind => ?_, fun session behind position splits => ?_⟩
  · exact (h.steady kind).imp offers fun steady behind first =>
      (steady behind first).of_reads (fun _ _ => Reads.apply) Stalls.apply
  · exact gets_apply splits fun session splits =>
      (h.gets session behind position splits).mono fun kind => .imp_left offers

/-! ### Alternatives -/

/-- A rule that has a name goes back to where it began if it fails. -/
theorem splits_of_error {rule : Rule} {allowance : Nat} {session after : Session}
    {behind : List Word} {position : Nat} {failure : Failure} (named : rule.name?.isSome = true)
    (splits : session.Splits front behind position)
    (run : Grammar.apply true allowance rule session = .error failure after)
    (alive : failure.fatal = false) : after.Splits front behind position := by
  have stumbles : Stumbles (Grammar.apply true allowance rule) (front ++ behind) fun _ => True :=
    ⟨session, after, failure, splits.faces, run, alive⟩
  obtain ⟨_, _, run', _, faces⟩ := stumbles.fails named (Nat.le_refl _) _ session splits.faces
  rw [run] at run'
  cases run'
  exact ⟨faces, position_apply_error named run ▸ splits.ends⟩

/-- In front of the front alone, the parser does what is expected of it. -/
theorem does (h : Honest F p front outcome loose) : Does p front [] outcome := by
  rcases h.steady .eof with offers | steady
  · exact absurd rfl offers.noEnd
  · exact steady [] rfl

/-- What is read in front of the front alone is what is expected of the parser. -/
theorem reads {a : α} (h : Honest F p front (some (a, rest)) loose) : Reads p front a rest := by
  have does : Reads p (front ++ []) a (rest ++ []) := h.does
  rwa [List.append_nil, List.append_nil] at does

/-- The first alternative is taken where it reads a value, if nothing behind the front can change
that. -/
theorem firstOf_left {a : α} (hp : Honest F p front (some (a, rest))) (definite : Definite p) :
    Honest F (firstOf p q) front (some (a, rest)) := by
  have offers {kind : TokenKind} (offers : Offers F p front kind) :
      Offers F (firstOf p q) front kind := offers.of_reads fun _ _ _ _ => Reads.firstOf_left
  have always := definite front rest a hp.reads
  refine ⟨hp.shorter, fun kind => .inr fun behind _ => .firstOf_left (always behind),
    fun session behind position splits => ?_⟩
  have trying : session.trying.Splits front behind position := splits.of_eq rfl rfl rfl rfl
  refine .firstOf ((hp.gets _ behind position trying).mono fun kind => .imp_left offers)
    fun failure after run _ => ?_
  obtain ⟨_, run', _⟩ := always behind _ session.trying trying.faces
  rw [run] at run'
  cases run'

/-- The second alternative is taken where the first one stalls. -/
theorem firstOf_right {rule : Rule} {allowance : Nat} {q : Parser rule.Result}
    {outcome : Option (rule.Result × List Word)} (named : rule.name?.isSome = true)
    (hp : Honest F (Grammar.apply true allowance rule) front none) (hq : Honest F q front outcome) :
    Honest F (firstOf (Grammar.apply true allowance rule) q) front outcome := by
  have offersFirst {kind : TokenKind} (offers : Offers F (Grammar.apply true allowance rule) front kind) :
      Offers F (firstOf (Grammar.apply true allowance rule) q) front kind :=
    offers.of_reads fun _ _ _ _ => Reads.firstOf_left
  have offersSecond {kind : TokenKind} (offers : Offers F q front kind) :
      Offers F (firstOf (Grammar.apply true allowance rule) q) front kind := by
    rcases hp.steady kind with offered | steady
    · exact offersFirst offered
    · exact offers.of_reads fun behind _ first _ => .firstOf_right ((steady behind first).fails named)
  refine ⟨hq.shorter, fun kind => ?_, fun session behind position splits => ?_⟩
  · rcases hp.steady kind with offered | steady
    · exact .inl (offersFirst offered)
    · exact (hq.steady kind).imp offersSecond fun steady' behind first =>
        (steady' behind first).of_reads
          (fun _ _ => .firstOf_right ((steady behind first).fails named))
          (.firstOf ((steady behind first).fails named))
  · have trying : session.trying.Splits front behind position := splits.of_eq rfl rfl rfl rfl
    refine .firstOf (.of_none ((hp.gets _ behind position trying).mono fun kind => ?_))
      fun failure after run alive => ?_
    · exact fun noted => .inl (noted.elim offersFirst fun ⟨_, _, nothing⟩ => nomatch nothing)
    · have again := splits_of_error named trying run alive
      have trying' : after.settled.trying.Splits front behind position := again.of_eq rfl rfl rfl rfl
      exact (hq.gets _ behind position trying').mono fun kind => .imp_left offersSecond

/-- An optional part that is there. -/
theorem optional_some {a : α} (hp : Honest F p front (some (a, rest))) (definite : Definite p) :
    Honest F (optional p) front (some (some a, rest)) := by
  have offers {kind : TokenKind} (offers : Offers F p front kind) :
      Offers F (optional p) front kind := by
    obtain ⟨word, more, a, same, spelled, reads⟩ := offers
    exact ⟨word, more, some a, same, spelled, fun behind follows => (reads behind follows).optional_some⟩
  have always := definite front rest a hp.reads
  refine ⟨fun _ _ same => ?_, fun kind => .inr fun behind _ => Reads.optional_some (always behind),
    fun session behind position splits => ?_⟩
  · cases same
    exact hp.shorter a rest rfl
  · have trying : session.trying.Splits front behind position := splits.of_eq rfl rfl rfl rfl
    refine .optional ((hp.gets _ behind position trying).mono fun kind noted => ?_)
      (fun _ _ same => ?_) fun failure after run _ => ?_
    · exact .inl (noted.elim offers fun ⟨never, _⟩ => never.elim)
    · cases same
      rfl
    · obtain ⟨_, run', _⟩ := always behind _ session.trying trying.faces
      rw [run] at run'
      cases run'

/-- An optional part that is not there. -/
theorem optional_none {rule : Rule} {allowance : Nat} (named : rule.name?.isSome = true)
    (hp : Honest F (Grammar.apply true allowance rule) front none) :
    Honest F (optional (Grammar.apply true allowance rule)) front (some (none, front)) := by
  have offers {kind : TokenKind} (offers : Offers F (Grammar.apply true allowance rule) front kind) :
      Offers F (optional (Grammar.apply true allowance rule)) front kind := by
    obtain ⟨word, more, a, same, spelled, reads⟩ := offers
    exact ⟨word, more, some a, same, spelled, fun behind follows => (reads behind follows).optional_some⟩
  refine ⟨fun _ _ same => ?_, fun kind => ?_, fun session behind position splits => ?_⟩
  · cases same
    exact Nat.le_refl _
  · exact (hp.steady kind).imp offers fun steady behind first =>
      Reads.optional_none ((steady behind first).fails named)
  · have trying : session.trying.Splits front behind position := splits.of_eq rfl rfl rfl rfl
    refine .optional ((hp.gets _ behind position trying).mono fun kind noted => ?_)
      (fun _ _ nothing => nomatch nothing) fun failure after run alive => ?_
    · exact .inl (noted.elim offers fun ⟨_, _, nothing⟩ => nomatch nothing)
    · exact ⟨front, rfl, (splits_of_error named trying run alive).of_eq rfl rfl rfl rfl⟩

/-! ### Repetition -/

section

variable {step : σ → Parser (Step σ)}

/-- What comes after a step of a repetition. -/
def afterStep (step : σ → Parser (Step σ)) : Step σ → Parser σ
  | .more state => Parser.iterate step state
  | .done state => Pure.pure state

/-- How often a repetition may go on does not matter, as long as it is more often than there are
words. -/
theorem repeatAtMost_run (same : ∀ state, nearby.rel Eq (step state) (step state))
    (shorter : ∀ state words state' rest, Reads (step state) words (.more state') rest →
      rest.length < words.length) {good : Word → Prop} {words : List Word} {session : Session}
    (faces : session.Faces words .adql good) (state : σ) (count count' : Nat)
    (enough : words.length < count) (enough' : words.length < count') :
    repeatAtMost step count state session = repeatAtMost step count' state session := by
  induction count generalizing count' words session state with
  | zero => omega
  | succ count ih =>
    obtain ⟨count', rfl⟩ : ∃ less, count' = less + 1 := ⟨count' - 1, by omega⟩
    change EStateM.bind (step state) _ session = EStateM.bind (step state) _ session
    unfold EStateM.bind
    cases run : step state session with
    | error failure after => rfl
    | ok next after =>
      cases next with
      | done state' => rfl
      | more state' =>
        obtain ⟨rest, faces', reads⟩ :=
          Ensures.reads_of_nearby (same state) words session after _ faces run
        have fewer := shorter _ _ _ _ reads
        exact ih faces' state' count' (by omega) (by omega)

/-- A repetition is a step and what comes after it. -/
theorem iterate_run (same : ∀ state, nearby.rel Eq (step state) (step state))
    (shorter : ∀ state words state' rest, Reads (step state) words (.more state') rest →
      rest.length < words.length) {good : Word → Prop} {words : List Word} {session : Session}
    (faces : session.Faces words .adql good) (state : σ) :
    Parser.iterate step state session = (step state >>= afterStep step) session := by
  have counted {words : List Word} {session : Session} (faces : session.Faces words .adql good)
      (state : σ) :
      Parser.iterate step state session = repeatAtMost step (words.length + 1) state session := by
    rw [← faces.remaining]
    rfl
  rw [counted faces]
  change EStateM.bind (step state) _ session = EStateM.bind (step state) _ session
  unfold EStateM.bind
  cases run : step state session with
  | error failure after => rfl
  | ok next after =>
    cases next with
    | done state' => rfl
    | more state' =>
      obtain ⟨rest, faces', reads⟩ :=
        Ensures.reads_of_nearby (same state) words session after _ faces run
      have fewer := shorter _ _ _ _ reads
      exact (repeatAtMost_run same shorter faces' state' _ _ fewer (Nat.lt_succ_self _)).trans
        (counted faces' state').symm

/-- A repetition reads what a step reads and what comes after it reads. -/
theorem reads_iterate (same : ∀ state, nearby.rel Eq (step state) (step state))
    (shorter : ∀ state words state' rest, Reads (step state) words (.more state') rest →
      rest.length < words.length) {state final : σ} {words rest : List Word}
    (h : Reads (step state >>= afterStep step) words final rest) :
    Reads (Parser.iterate step state) words final rest :=
  fun good session faces => iterate_run same shorter faces state ▸ h good session faces

/-- A repetition stalls where its first step stalls. -/
theorem stalls_iterate (same : ∀ state, nearby.rel Eq (step state) (step state))
    (shorter : ∀ state words state' rest, Reads (step state) words (.more state') rest →
      rest.length < words.length) {state : σ} {words : List Word} (h : Stalls (step state) words) :
    Stalls (Parser.iterate step state) words :=
  fun good session faces => iterate_run same shorter faces state ▸
    Stalls.bind_left h good session faces

/-- What comes after a step can be completed. -/
theorem closes_afterStep (sub : F ⊆ G) (closes : ∀ state, Closes G F (Parser.iterate step state)) :
    ∀ next, Closes G F (afterStep step next)
  | .more state => closes state
  | .done state => .pure sub state

/-- A repetition offers what its step offers. -/
theorem offers_iterate (same : ∀ state, nearby.rel Eq (step state) (step state))
    (shorter : ∀ state words state' rest, Reads (step state) words (.more state') rest →
      rest.length < words.length) (sub : F ⊆ G)
    (closes : ∀ state, Closes G F (Parser.iterate step state)) {state : σ}
    (h : Offers G (step state) front kind) : Offers F (Parser.iterate step state) front kind :=
  (h.bind_left (closes_afterStep sub closes)).of_reads fun _ _ _ _ => reads_iterate same shorter

/-- A repetition of honest steps is honest.  Kinds that are loose behind a step go on with the repetition,
and those that are loose where it is done stay loose. -/
theorem iterate {size : Nat} (same : ∀ state, nearby.rel Eq (step state) (step state))
    (shorter : ∀ state words state' rest, Reads (step state) words (.more state') rest →
      rest.length < words.length)
    (beyond : ∀ state, Beyond (step state)) (sub : F ⊆ G)
    (closes : ∀ state, Closes G F (Parser.iterate step state))
    (resolved : ∀ state, ∀ kind ∈ loose', Offers F (Parser.iterate step state) [] kind)
    (steps : ∀ state front, front.length < size →
      (∃ final rest, Honest G (step state) front (some (.done final, rest)) loose) ∨
        ∃ outcome : Option (σ × List Word), Honest G (step state) front
          (outcome.map fun result => (.more result.1, result.2)) loose')
    (front : List Word) (few : front.length < size) (state : σ) :
    ∃ outcome, Honest F (Parser.iterate step state) front outcome loose := by
  have closes' := closes_afterStep sub closes
  have beyond' : ∀ next, Beyond (afterStep step next)
    | .more state => .iterate beyond state
    | .done state => .pure state
  have unfolded {front : List Word} {state : σ} {outcome : Option (σ × List Word)}
      (h : Honest F (step state >>= afterStep step) front outcome loose) :
      Honest F (Parser.iterate step state) front outcome loose :=
    h.congr fun good behind session faces => iterate_run same shorter faces state
  -- the induction is on how many words there are: a step that is not done leaves fewer
  induction length : front.length using Nat.strong_induction_on generalizing front state with
  | _ length' ih =>
    subst length
    rcases steps state front few with ⟨final, rest, honest⟩ | ⟨outcome, honest⟩
    · refine ⟨_, unfolded (honest.bind closes' beyond' (.pure final rest) ?_)⟩
      rintro rfl kind found
      exact .inr ⟨found, final, rfl⟩
    · match outcome with
      | none => exact ⟨none, unfolded (honest.bind_stalls closes' beyond')⟩
      | some (state', rest) =>
        have fewer : rest.length < front.length := shorter _ _ _ _ honest.reads
        obtain ⟨outcome', honest'⟩ := ih rest.length fewer rest (by omega) state' rfl
        exact ⟨outcome', unfolded (honest.bind closes' beyond' honest' fun _ kind found =>
          .inl (resolved state' kind found))⟩

end

end Honest

end Adql
