import Adql.Proofs.Leaves.Accounts
import Adql.Proofs.Shape.Tokens

/-!
# Contracts of parsers

A contract says of a parser what it may rely on and what it grants, in a `Place`: under a precedence
table, in so many open queries, with recovery or without.  The tokens are those of a text.

Where the parser succeeds, it grants something of the value and of the session behind it.  Where it
fails for a reason other than a limit, the failure names at least one kind that was expected;
`Session.Telling` says the same of the notes and the diagnostics so far.  A parser may fail at once
only where something has been noted, so contracts speak of notes as well.

There is one lemma for each way to combine parsers.  Repetitions are given as many steps as there
are tokens left, and `TokenCursor.Ahead` shows that this is enough where every step but the last one
reads a token.
-/

namespace Adql

open Adql.Parser Adql.Grammar

/-! ### Places -/

/-- Where in a parse a parser runs. -/
structure Place where
  /-- The precedence of the operators. -/
  table : PrecedenceTable
  /-- Are failures survived in the outermost query? -/
  recover : Bool
  /-- The number of open queries. -/
  queries : Nat

namespace Place

/-- The place inside a rule. -/
def inside (place : Place) (rule : Rule) : Place :=
  { place with queries := if rule.opensQuery then place.queries + 1 else place.queries }

/-- No failure is survived here, so nothing is left out of a tree. -/
def isWhole (place : Place) : Bool :=
  !place.recover || place.queries != 1

end Place

/-- The tokens are those of a text, with an end marker behind them. -/
structure TokenCursor.Genuine (cursor : TokenCursor) : Prop where
  /-- The last token is an end marker. -/
  final : cursor.final.kind = .eof
  /-- The other tokens are none, and they are spelled like tokens of a text. -/
  tokens : ∀ token ∈ cursor.tokens.toList, token.kind ≠ .eof ∧ token.Genuine

/-- The current token is spelled like a token of a text. -/
theorem TokenCursor.Genuine.current {cursor : TokenCursor} (h : cursor.Genuine) :
    cursor.current.Genuine := by
  rcases cursor.current_cases with ⟨inside, same⟩ | ⟨_, same⟩
  · rw [same]
    exact (h.tokens _ (Array.getElem_mem_toList inside)).2
  · rw [same]
    exact Token.genuine_of_kind (by rw [h.final]; exact nofun) (by rw [h.final]; exact nofun)

/-- The session is at a place. -/
structure Session.At (session : Session) (place : Place) : Prop where
  /-- The table is the one of the settings. -/
  table : session.settings.precedence = place.table
  /-- Failures are survived if the settings say so. -/
  recover : session.settings.recover = place.recover
  /-- So many queries are open. -/
  queries : session.queryDepth = place.queries
  /-- The tokens are those of a text. -/
  genuine : session.cursor.Genuine

namespace Session.At

variable {session before after : Session} {place : Place}

/-- A later session is at the same place. -/
theorem of_follows (h : before.At place) (follows : before.Follows after) : after.At place where
  table := follows.settings ▸ h.table
  recover := follows.settings ▸ h.recover
  queries := follows.queryDepth.trans h.queries
  genuine := ⟨follows.final ▸ h.genuine.final, follows.tokens ▸ h.genuine.tokens⟩

/-- A rule leads to the place inside it. -/
theorem inside (h : session.At place) (rule : Rule) :
    (Parser.inside rule session).At (place.inside rule) where
  table := h.table
  recover := h.recover
  queries := by simp only [Parser.inside, Place.inside, h.queries]
  genuine := h.genuine

/-- Where nothing is left out, no failure is survived. -/
theorem canRecover (h : session.At place) (whole : place.isWhole = true) :
    session.canRecover = false := by
  rcases Bool.or_eq_true _ _ ▸ whole with strict | inner
  · rw [Session.canRecover, h.recover, Bool.not_eq_true' _ |>.mp strict]
    rfl
  · have inner : (session.queryDepth == 1) = false := by
      rw [h.queries]
      exact bne_iff_ne.mp inner |> beq_eq_false_iff_ne.mpr
    rw [Session.canRecover, inner]
    simp

end Session.At

/-! ### What was expected -/

/-- If the diagnostic is about an unexpected token, it names a kind that was expected. -/
def Diagnostic.Telling (error : Diagnostic) : Prop :=
  ∀ expected ∈ error.expected?, ∃ kind, kind ∈ expected

/-- The notes and the diagnostics name what was expected. -/
structure Session.Telling (session : Session) : Prop where
  /-- Notes are about at least one kind. -/
  notes : ∀ furthest ∈ session.furthest, ∃ kind, kind ∈ furthest.expected
  /-- Diagnostics name what was expected. -/
  errors : ∀ error ∈ session.errors.toList, error.Telling

/-- Something was looked for in vain. -/
def Session.Noted (session : Session) : Prop :=
  session.furthest ≠ none

namespace Session.Telling

variable {session : Session}

/-- A note is about its kind. -/
theorem noting (h : session.Telling) (kind : TokenKind) : (session.noting kind).Telling := by
  have fresh : ∃ other, other ∈ KindSet.singleton kind := ⟨kind, KindSet.mem_singleton.mpr rfl⟩
  unfold Session.noting
  cases hnotes : session.furthest with
  | none => exact { h with notes := by rintro _ ⟨⟩; exact fresh }
  | some furthest =>
    dsimp only
    split
    · exact h
    · split
      · exact { h with notes := by rintro _ ⟨⟩; exact ⟨kind, KindSet.mem_insert.mpr (.inl rfl)⟩ }
      · exact { h with notes := by rintro _ ⟨⟩; exact fresh }

/-- Several kinds may be noted. -/
theorem foldl_noting (h : session.Telling) (kinds : List TokenKind) :
    (kinds.foldl Session.noting session).Telling := by
  induction kinds generalizing session with
  | nil => exact h
  | cons kind kinds ih => exact ih (h.noting kind)

/-- Notes may be dropped. -/
theorem dropNotesAhead (h : session.Telling) : (Parser.dropNotesAhead session).Telling := by
  unfold Parser.dropNotesAhead
  cases hnotes : session.furthest with
  | none => exact h
  | some furthest =>
    dsimp only
    split
    · exact { h with notes := nofun }
    · exact h

/-- A failure that tells may be reported. -/
theorem reporting (h : session.Telling) {failure : Failure}
    (tells : ∃ kind, kind ∈ failure.expected) : (session.reporting failure).Telling where
  notes := nofun
  errors := by
    rw [errors_reporting]
    intro error found
    rcases List.mem_append.mp found with earlier | last
    · exact h.errors error earlier
    · obtain rfl := List.mem_singleton.mp last
      rintro _ ⟨⟩
      exact tells

/-- A limit may end the parse. -/
theorem haltedBy (h : session.Telling) {cause : DiagnosticCause}
    (limit : (Diagnostic.atToken session.current cause).expected? = none) :
    (session.haltedBy cause).Telling where
  notes := h.notes
  errors := by
    intro error found
    rw [Session.haltedBy, Array.toList_push] at found
    rcases List.mem_append.mp found with earlier | last
    · exact h.errors error earlier
    · obtain rfl := List.mem_singleton.mp last
      intro expected there
      rw [limit] at there
      cases there

/-- A rule that failed may be closed. -/
theorem outsideFailed (h : session.Telling) (rule : Rule) (start : Nat) :
    (Parser.outsideFailed rule start session).Telling := by
  unfold Parser.outsideFailed
  split
  · exact { h with }
  · exact { h with }

/-- Where something was looked for in vain, the failure tells. -/
theorem failure (h : session.Telling) (noted : session.Noted) :
    ∃ kind, kind ∈ session.failure.expected := by
  unfold Session.failure
  cases hnotes : session.furthest with
  | none => exact absurd hnotes noted
  | some furthest => exact h.notes furthest hnotes

end Session.Telling

namespace Session

/-- A kind that is noted is a note. -/
theorem noted_noting (session : Session) (kind : TokenKind) : (session.noting kind).Noted := by
  unfold noting Noted
  cases hnotes : session.furthest with
  | none => exact nofun
  | some furthest =>
    dsimp only
    split
    · rw [hnotes]; exact nofun
    · split
      · exact nofun
      · exact nofun

/-- Notes stay when another kind is noted. -/
theorem noted_foldl_noting {kinds : List TokenKind} (some : kinds ≠ []) (session : Session) :
    (kinds.foldl noting session).Noted := by
  obtain ⟨front, last, rfl⟩ := List.exists_cons_of_ne_nil some
  induction last generalizing session front with
  | nil => exact noted_noting session front
  | cons kind kinds ih => exact ih (session.noting front) kind (List.cons_ne_nil _ _)

end Session

/-! ### Cursors -/

namespace TokenCursor

/-- The cursor has moved behind a token in question. -/
def Behind (now : TokenCursor → Prop) (cursor : TokenCursor) : Prop :=
  ∃ before, now before ∧ cursor = before.advance

/-- Fewer than so many tokens are left. -/
def Ahead (count : Nat) (cursor : TokenCursor) : Prop :=
  cursor.remaining < count

end TokenCursor

open TokenCursor (Behind Ahead)

/-! ### The contract -/

variable {α β σ : Type}

/-- A run succeeds with what was granted, or it fails and tells why. -/
inductive Granted (post : α → Session → Prop) (before : Session) :
    EStateM.Result Failure Session α → Prop
  | ok {value after} : before.Follows after → after.Telling → post value after →
      Granted post before (.ok value after)
  | error {failure after} : before.Follows after → after.Telling →
      (failure.fatal = false → ∃ kind, kind ∈ failure.expected) →
      Granted post before (.error failure after)

/-- What is granted later is granted earlier. -/
theorem Granted.of_follows {post : α → Session → Prop} {before between : Session}
    {r : EStateM.Result Failure Session α} (follows : before.Follows between)
    (h : Granted post between r) : Granted post before r := by
  cases h with
  | ok follows' telling there => exact .ok (follows.trans follows') telling there
  | error follows' telling tells => exact .error (follows.trans follows') telling tells

/-- What is granted has consequences. -/
theorem Granted.mono {post post' : α → Session → Prop} {before : Session}
    {r : EStateM.Result Failure Session α} (h : Granted post before r)
    (hpost : ∀ value after, before.Follows after → post value after → post' value after) :
    Granted post' before r := by
  cases h with
  | ok follows telling there => exact .ok follows telling (hpost _ _ follows there)
  | error follows telling tells => exact .error follows telling tells

/-- At the place, in a session in question, the parser grants something of its value and of the
session behind it, or it tells why it fails. -/
def Grants (place : Place) (pre : Session → Prop) (parser : Parser α)
    (post : α → Session → Prop) : Prop :=
  ∀ before : Session, before.At place → before.Telling → pre before →
    Granted post before (parser before)

/-- A step of a repetition goes on with a token less and with what is held, or it is done with what
has to be granted in the end. -/
def Stepped (held finish : σ → TokenCursor → Prop) (count : Nat) : Step σ → Session → Prop
  | .more state, session => held state session.cursor ∧ Ahead count session.cursor
  | .done state, session => finish state session.cursor

/-- The cursor is one of those in question. -/
abbrev On (now : TokenCursor → Prop) : Session → Prop :=
  fun session => now session.cursor

namespace Grants

variable {place : Place} {pre pre' : Session → Prop} {p q : Parser α} {f : α → Parser β}
  {post middle : α → Session → Prop} {result : β → Session → Prop} {now : TokenCursor → Prop}
  {kind : TokenKind} {keyword : Keyword}

/-- More may be relied on. -/
theorem mono_pre (h : Grants place pre p post) (hpre : ∀ session, pre' session → pre session) :
    Grants place pre' p post :=
  fun before at' telling start => h before at' telling (hpre before start)

/-- What is granted anywhere is granted everywhere. -/
theorem anywhere (h : Grants place (On Anywhere) p post) : Grants place pre p post :=
  h.mono_pre fun _ _ => trivial

/-- What is known of all sessions in question may be assumed. -/
theorem assuming (known : Prop) (hpre : ∀ session : Session, session.At place → pre session → known)
    (h : known → Grants place pre p post) : Grants place pre p post :=
  fun before at' telling start => h (hpre before at' start) before at' telling start

/-- What is granted has consequences. -/
theorem mono {post' : α → Session → Prop} (h : Grants place pre p post)
    (hpost : ∀ value session, post value session → post' value session) :
    Grants place pre p post' := by
  intro before at' telling start
  exact (h before at' telling start).mono fun value after _ => hpost value after

/-- What later sessions keep is kept. -/
theorem frame {kept : Session → Prop} (h : Grants place pre p post)
    (stays : ∀ before after : Session, before.Follows after → kept before → kept after) :
    Grants place (fun session => pre session ∧ kept session) p
      fun value session => post value session ∧ kept session := by
  intro before at' telling start
  refine (h before at' telling start.1).mono fun value after follows there => ⟨there, ?_⟩
  exact stays before after follows start.2

/-! ### Sequences -/

/-- A value is yielded at once. -/
theorem pure {value : α} (h : ∀ session, pre session → post value session) :
    Grants place pre (pure value) post :=
  fun before _ telling start => .ok (.refl before) telling (h before start)

/-- The second parser relies on what the first one grants. -/
theorem bind (hp : Grants place pre p middle)
    (hf : ∀ value, Grants place (middle value) (f value) result) :
    Grants place pre (p >>= f) result := by
  intro before at' telling start
  change Granted result before (EStateM.bind p f before)
  unfold EStateM.bind
  have granted := hp before at' telling start
  generalize p before = first at granted
  cases granted with
  | ok follows telling there =>
    exact .of_follows follows (hf _ _ (at'.of_follows follows) telling there)
  | error follows telling tells => exact .error follows telling tells

/-- The second parser relies on the value of the first one only. -/
theorem bind_value {condition : α → Prop} (hp : Grants place pre p fun value _ => condition value)
    (hf : ∀ value, condition value → Grants place (On Anywhere) (f value) result) :
    Grants place pre (p >>= f) result :=
  hp.bind fun value => .assuming (condition value) (fun _ _ there => there) fun there =>
    (hf value there).anywhere

/-- The value may be mapped. -/
theorem map {g : α → β} (h : Grants place pre p fun value => result (g value)) :
    Grants place pre (g <$> p) result := by
  rw [map_eq_pure_bind]
  exact h.bind fun _ => pure fun _ there => there

/-- A choice by a condition grants what its parts grant. -/
theorem ite {c : Prop} [Decidable c] (hp : c → Grants place pre p post)
    (hq : ¬c → Grants place pre q post) : Grants place pre (if c then p else q) post := by
  by_cases h : c
  · rw [if_pos h]
    exact hp h
  · rw [if_neg h]
    exact hq h

/-- Where something was looked for in vain, a failure tells. -/
theorem fail (h : ∀ session, pre session → session.Noted) :
    Grants place pre (fail : Parser α) post :=
  fun before _ telling start =>
    .error (.refl before) telling fun _ => telling.failure (h before start)

/-! ### Looking -/

/-- A look at the session changes nothing. -/
theorem look (value : Session → α) (run : ∀ session, p session = .ok (value session) session)
    (hf : ∀ a, Grants place (fun session => pre session ∧ value session = a) (f a) result) :
    Grants place pre (p >>= f) result := by
  intro before at' telling start
  change Granted result before (EStateM.bind p f before)
  unfold EStateM.bind
  rw [run]
  exact hf _ before at' telling ⟨start, rfl⟩

/-- The current token is looked at. -/
theorem current_bind {f : Token → Parser β}
    (hf : ∀ token,
      Grants place (fun session => pre session ∧ session.current = token) (f token) result) :
    Grants place pre (current >>= f) result :=
  look (·.current) (fun _ => rfl) hf

/-- The kind of the current token is looked at. -/
theorem currentKind_bind {f : TokenKind → Parser β}
    (hf : ∀ kind, Grants place (fun session => pre session ∧ session.current.kind = kind)
      (f kind) result) :
    Grants place pre (currentKind >>= f) result :=
  look (·.current.kind) (fun _ => rfl) hf

/-- The kind of the next token is looked at. -/
theorem nextKind_bind {f : TokenKind → Parser β}
    (hf : ∀ kind, Grants place (fun session => pre session ∧ (session.cursor.peek 1).kind = kind)
      (f kind) result) :
    Grants place pre (nextKind >>= f) result :=
  look (fun session => (session.cursor.peek 1).kind) (fun _ => rfl) hf

/-- The kinds of the tokens ahead are looked at. -/
theorem kindsAhead_bind {f : List TokenKind → Parser β}
    (hf : ∀ kinds, Grants place pre (f kinds) result) :
    Grants place pre (kindsAhead >>= f) result :=
  look (·.cursor.kindsAhead) (fun _ => rfl) fun kinds => (hf kinds).mono_pre fun _ h => h.1

/-- The precedence of the operators is the one of the place. -/
theorem precedence_bind {f : PrecedenceTable → Parser β}
    (hf : Grants place pre (f place.table) result) : Grants place pre (precedence >>= f) result :=
  look (·.settings.precedence) (fun _ => rfl) fun table => by
    refine .assuming (place.table = table) (fun session at' h => at'.table.symm.trans h.2) ?_
    rintro rfl
    exact hf.mono_pre fun _ h => h.1

/-! ### Tokens -/

/-- A kind that is looked for is there, or it is noted. -/
theorem check_bind {f : Bool → Parser β}
    (found : Grants place
      (On fun cursor => now cursor ∧ cursor.current.kind = kind) (f true) result)
    (missed : Grants place (fun session =>
      On (fun cursor => now cursor ∧ cursor.current.kind ≠ kind) session ∧ session.Noted)
      (f false) result) :
    Grants place (On now) (check kind >>= f) result := by
  intro before at' telling start
  change Granted result before (EStateM.bind (check kind) f before)
  unfold EStateM.bind
  rw [check_run]
  by_cases there : before.current.kind = kind
  · rw [if_pos there]
    exact found before at' telling ⟨start, there⟩
  · rw [if_neg there]
    have follows : before.Follows (before.noting kind) := .noting before kind
    refine .of_follows follows (missed _ (at'.of_follows follows) (telling.noting kind) ⟨?_, ?_⟩)
    · rw [On, before.cursor_noting]
      exact ⟨start, there⟩
    · exact before.noted_noting kind

/-- The current token is left behind. -/
theorem advance_bind {f : Token → Parser β}
    (hf : ∀ token,
      Grants place (On (Behind fun cursor => now cursor ∧ cursor.current = token)) (f token)
        result) :
    Grants place (On now) (advance >>= f) result := by
  intro before at' telling start
  have follows := Session.Follows.advance before
  refine .of_follows follows (hf before.current _ (at'.of_follows follows) { telling with } ?_)
  exact ⟨before.cursor, ⟨start, rfl⟩, rfl⟩

/-- Several kinds are noted. -/
theorem noteAll_bind {kinds : List TokenKind} {f : Unit → Parser β}
    (hf : Grants place (On now) (f ()) result) :
    Grants place (On now) (noteAll kinds >>= f) result := by
  intro before at' telling start
  have follows := Session.Follows.foldl_noting kinds before
  refine .of_follows follows (hf _ (at'.of_follows follows) (telling.foldl_noting kinds) ?_)
  rw [On, before.cursor_foldl_noting]
  exact start

/-- A failure tells what was expected. -/
theorem failExpecting {kinds : List TokenKind} (some : kinds ≠ []) :
    Grants place pre (failExpecting kinds : Parser α) post := by
  intro before _ telling _
  have follows := Session.Follows.foldl_noting kinds before
  have telling := telling.foldl_noting kinds
  exact .error follows telling fun _ => telling.failure (Session.noted_foldl_noting some before)

/-- A token that may be eaten is left behind, or it is noted. -/
theorem eat_bind {f : Bool → Parser β}
    (found : Grants place
      (On (Behind fun cursor => now cursor ∧ cursor.current.kind = kind)) (f true) result)
    (missed : Grants place (fun session => now session.cursor ∧ session.Noted) (f false) result) :
    Grants place (On now) (eat kind >>= f) result := by
  unfold eat
  rw [bind_assoc]
  refine check_bind ?_ (missed.mono_pre fun _ h => ⟨h.1.1, h.2⟩)
  refine advance_bind fun token => found.mono_pre fun session ⟨before, there, moved⟩ => ?_
  exact ⟨before, there.1, moved⟩

/-- A token that has to be there is left behind. -/
theorem expect_bind {q : Parser β}
    (hq : Grants place
      (On (Behind fun cursor => now cursor ∧ cursor.current.kind = kind)) q result) :
    Grants place (On now) (expect kind >>= fun _ => q) result := by
  unfold expect
  rw [bind_assoc]
  refine check_bind ?_ (fail fun _ h => h.2)
  refine advance_bind fun token => hq.mono_pre fun session ⟨before, there, moved⟩ => ?_
  exact ⟨before, there.1, moved⟩

/-- A reserved word that has to be there is left behind. -/
theorem expectWord_bind {q : Parser β}
    (hq : Grants place
      (On (Behind fun cursor => now cursor ∧ cursor.current.kind = .keyword keyword)) q result) :
    Grants place (On now) (expectWord keyword >>= fun _ => q) result := by
  unfold expectWord
  rw [bind_assoc]
  exact expect_bind hq

/-- A token may be eaten or not. -/
theorem eat_cases {f : Bool → Parser β} (found : Grants place (On Anywhere) (f true) result)
    (missed : Grants place (On Anywhere) (f false) result) :
    Grants place (On now) (eat kind >>= f) result :=
  eat_bind found.anywhere missed.anywhere

/-- A token has to be there. -/
theorem expect_then {q : Parser β} (hq : Grants place (On Anywhere) q result) :
    Grants place (On now) (expect kind >>= fun _ => q) result :=
  expect_bind hq.anywhere

/-- A reserved word has to be there. -/
theorem expectWord_then {q : Parser β} (hq : Grants place (On Anywhere) q result) :
    Grants place (On now) (expectWord keyword >>= fun _ => q) result :=
  expectWord_bind hq.anywhere

/-- The current token is left behind, whatever it is. -/
theorem advance_then {f : Token → Parser β}
    (hf : ∀ token, Grants place (On Anywhere) (f token) result) :
    Grants place (On now) (advance >>= f) result :=
  advance_bind fun token => (hf token).anywhere

/-- Behind a word there is something, or there is nothing. -/
theorem afterWord {default : α} (found : Grants place (On Anywhere) p post)
    (missed : ∀ session, now session.cursor → post default session) :
    Grants place (On now) (afterWord keyword default p) post :=
  eat_bind found.anywhere (pure fun session h => missed session h.1)

/-! ### Alternatives -/

section

variable {condition : α → Prop}

/-- What is tried grants the same. -/
theorem speculate (h : Grants place (On now) p fun value _ => condition value) :
    Grants place (On now) (speculate p) fun value _ => condition value := by
  intro before at' telling start
  have tried := h before.trying { at' with } { telling with } start
  cases run : p before.trying with
  | ok value after =>
    rw [run] at tried
    rw [speculate_ok run]
    cases tried with
    | ok follows telling there => exact .ok follows.settled { telling with } there
  | error failure after =>
    rw [run] at tried
    rw [speculate_error run]
    cases tried with
    | error follows telling tells => exact .error follows.settled { telling with } tells

/-- An alternative grants the same. -/
theorem alternative (h : Grants place (On now) p fun value _ => condition value) :
    Grants place (On now) (alternative p) fun value _ => condition value := by
  refine bind h.speculate fun value => ?_
  intro before _ telling there
  exact .ok (.dropNotesAhead before) telling.dropNotesAhead there

/-- The second alternative is tried where the first one began. -/
theorem firstOf (hp : Grants place (On now) p fun value _ => condition value) (restores : Returns p)
    (hq : Grants place (On now) q fun value _ => condition value) :
    Grants place (On now) (firstOf p q) fun value _ => condition value := by
  intro before at' telling start
  have tried := hp.alternative before at' telling start
  unfold Parser.firstOf
  cases run : p before.trying with
  | ok value after =>
    rw [alternative_ok run] at tried ⊢
    exact tried
  | error failure after =>
    rw [alternative_error run] at tried ⊢
    cases tried with
    | error follows telling tells =>
      have back : after.cursor.position = before.cursor.position :=
        restores before.trying after failure run
      have same : after.settled.cursor = before.cursor := follows.cursor_eq back
      dsimp only
      split
      · exact .error follows telling tells
      · refine .of_follows follows (hq.alternative _ (at'.of_follows follows) telling ?_)
        rw [On, same]
        exact start

/-- A part that may be missing is there, or there is nothing. -/
theorem optional {condition : Option α → Prop}
    (hp : Grants place (On now) p fun value _ => condition (some value)) (missed : condition none) :
    Grants place (On now) (optional p) fun value _ => condition value := by
  intro before at' telling start
  have tried := hp.speculate before at' telling start
  unfold Parser.optional
  generalize Parser.speculate p before = result at tried
  cases tried with
  | ok follows telling there => exact .ok follows telling there
  | error follows telling tells =>
    dsimp only
    split
    · exact .error follows telling tells
    · exact .ok follows telling missed

/-- Where nothing is left out, a failure is not survived. -/
theorem orRecover {sync : List TokenKind} {ifFailed : α}
    (h : Grants place pre p fun value _ => condition value)
    (hole : place.isWhole = false → condition ifFailed) :
    Grants place pre (orRecover p sync ifFailed) fun value _ => condition value := by
  intro before at' telling start
  have granted := h before at' telling start
  unfold Parser.orRecover
  generalize p before = result at granted
  cases granted with
  | ok follows telling there => exact .ok follows telling there
  | @error failure after follows telling tells =>
    have at' := at'.of_follows follows
    refine .of_follows follows ?_
    change Granted _ after (EStateM.bind (recoverFrom failure sync) _ after)
    unfold EStateM.bind
    rw [recoverFrom_run]
    by_cases passed : (failure.fatal || !after.canRecover) = true
    · rw [if_pos passed]
      exact .error (.refl after) telling tells
    · obtain ⟨mild, recovers⟩ := Bool.or_eq_false_iff.mp (Bool.eq_false_iff.mpr passed)
      have reported : after.Follows (after.reporting failure) := .reporting after failure
      have telling := telling.reporting (tells mild)
      rw [if_neg passed]
      dsimp only
      by_cases ended : (after.reporting failure).halted = true
      · rw [if_pos ended]
        exact .error reported telling nofun
      · rw [if_neg ended]
        refine .ok (reported.trans (.moveTo _ (Nat.le_add_right _ _))) { telling with } (hole ?_)
        by_contra whole
        rw [at'.canRecover (Bool.eq_true_of_not_eq_false whole)] at recovers
        cases recovers

end

/-! ### Tokens that are left -/

section

variable {count : Nat}

/-- Whatever a parser grants, there are no more tokens left behind it. -/
theorem keepsAhead (h : Grants place (On Anywhere) p post) :
    Grants place (On (Ahead count)) p fun value session =>
      post value session ∧ Ahead count session.cursor := by
  have stays (before after : Session) (follows : before.Follows after)
      (less : Ahead count before.cursor) : Ahead count after.cursor :=
    Nat.lt_of_le_of_lt follows.remaining_le less
  exact (h.frame stays).mono_pre fun _ less => ⟨trivial, less⟩

/-- The second parser relies on the value of the first one, and there are no more tokens left behind
it. -/
theorem bind_ahead {condition : α → Prop}
    (hp : Grants place (On Anywhere) p fun value _ => condition value)
    (hf : ∀ value, condition value → Grants place (On (Ahead count)) (f value) result) :
    Grants place (On (Ahead count)) (p >>= f) result :=
  hp.keepsAhead.bind fun value =>
    .assuming (condition value) (fun _ _ there => there.1) fun there =>
    (hf value there).mono_pre fun _ h => h.2

/-- If a token is left behind, there is a token less to come. -/
theorem advance_more (now : TokenCursor → Prop) {f : Token → Parser β}
    (inner : ∀ cursor, now cursor → cursor.current.kind ≠ .eof)
    (hf : ∀ token, Grants place (On (Ahead count)) (f token) result) :
    Grants place (On fun cursor => now cursor ∧ Ahead (count + 1) cursor) (advance >>= f)
      result := by
  intro before at' telling start
  have follows := Session.Follows.advance before
  refine .of_follows follows (hf before.current _ (at'.of_follows follows) { telling with } ?_)
  have fewer := remaining_advance_lt at'.genuine.final (inner before.cursor start.1)
  exact Nat.lt_of_lt_of_le fewer (Nat.le_of_lt_succ start.2)

/-- Whether a token is eaten or not, there are no more tokens left behind it. -/
theorem eat_either {f : Bool → Parser β}
    (hf : ∀ there, Grants place (On (Ahead count)) (f there) result) :
    Grants place (On (Ahead count)) (eat kind >>= f) result := by
  refine eat_bind ((hf true).mono_pre ?_) ((hf false).mono_pre fun _ h => h.1)
  rintro session ⟨before, ⟨less, _⟩, moved⟩
  rw [On, moved, Ahead, before.remaining_advance]
  exact Nat.lt_of_le_of_lt (Nat.sub_le _ _) less

/-- If a token is eaten, there is a token less to come. -/
theorem eat_more {f : Bool → Parser β} (inner : kind ≠ .eof)
    (found : Grants place (On (Ahead count)) (f true) result)
    (missed : Grants place (fun session => Ahead (count + 1) session.cursor ∧ session.Noted)
      (f false) result) :
    Grants place (On (Ahead (count + 1))) (eat kind >>= f) result := by
  unfold eat
  rw [bind_assoc]
  refine check_bind ?_ (missed.mono_pre fun _ h => ⟨h.1.1, h.2⟩)
  refine (advance_more (·.current.kind = kind) ?_ fun _ => found).mono_pre fun _ h => h.symm
  exact fun _ there => there ▸ inner

/-- If a token has to be there, there is a token less to come. -/
theorem expect_more {q : Parser β} (inner : kind ≠ .eof)
    (hq : Grants place (On (Ahead count)) q result) :
    Grants place (On (Ahead (count + 1))) (expect kind >>= fun _ => q) result := by
  unfold expect
  rw [bind_assoc]
  refine check_bind ?_ (fail fun _ h => h.2)
  refine (advance_more (·.current.kind = kind) ?_ fun _ => hq).mono_pre fun _ h => h.symm
  exact fun _ there => there ▸ inner

/-- If a reserved word has to be there, there is a token less to come. -/
theorem expectWord_more {q : Parser β} (hq : Grants place (On (Ahead count)) q result) :
    Grants place (On (Ahead (count + 1))) (expectWord keyword >>= fun _ => q) result := by
  unfold expectWord
  rw [bind_assoc]
  exact expect_more nofun hq

end

/-! ### Repetition -/

/-- A repetition in which every step but the last one reads a token comes to its end. -/
theorem iterate {step : σ → Parser (Step σ)} {start : σ} (held finish : σ → TokenCursor → Prop)
    (h : ∀ count state, Grants place (On fun cursor => held state cursor ∧ Ahead (count + 1) cursor)
      (step state) (Stepped held finish count)) :
    Grants place (On (held start)) (iterate step start) fun state session =>
      finish state session.cursor := by
  have loop (count : Nat) (state : σ) :
      Grants place (On fun cursor => held state cursor ∧ Ahead count cursor)
        (repeatAtMost step count state) fun state session => finish state session.cursor := by
    induction count generalizing state with
    | zero => exact fun before _ _ start => absurd start.2 (Nat.not_lt_zero _)
    | succ count ih =>
      refine (h count state).bind fun next => ?_
      cases next with
      | more state => exact ih state
      | done state => exact pure fun _ there => there
  refine look (·.cursor.remaining) (fun _ => rfl) fun count => ?_
  refine (loop (count + 1) start).mono_pre fun session there => ⟨there.1, ?_⟩
  rw [← there.2]
  exact Nat.lt_succ_self _

/-- A repetition comes to its end, and what each step keeps is kept until the last one. -/
theorem iterate_reads {step : σ → Parser (Step σ)} {start : σ} {held finish : σ → Prop}
    (h : ∀ count state, held state → Grants place (On (Ahead (count + 1))) (step state)
      (Stepped (fun state _ => held state) (fun state _ => finish state) count))
    (hstart : held start) :
    Grants place pre (Parser.iterate step start) fun state _ => finish state := by
  have repeated : Grants place (On fun _ => held start) (Parser.iterate step start) fun state _ =>
      finish state := by
    refine iterate (fun state _ => held state) (fun state _ => finish state) fun count state => ?_
    refine .assuming (held state) (fun _ _ there => there.1) fun hstate => ?_
    exact (h count state hstate).mono_pre fun _ there => there.2
  exact repeated.mono_pre fun _ _ => hstart

/-- What each step of a repetition keeps is kept. -/
theorem iterate_held {step : σ → Parser (Step σ)} {start : σ} {held : σ → Prop}
    (h : ∀ state, held state → Grants place (On Anywhere) (step state) fun next _ =>
      held next.state)
    (hstart : held start) :
    Grants place pre (Parser.iterate step start) fun state _ => held state := by
  have loop (count : Nat) (state : σ) (hstate : held state) :
      Grants place (On Anywhere) (repeatAtMost step count state) fun state _ => held state := by
    induction count generalizing state with
    | zero => exact pure fun _ _ => hstate
    | succ count ih =>
      refine (h state hstate).bind_value fun next hnext => ?_
      cases next with
      | more state => exact ih state hnext
      | done state => exact pure fun _ _ => hnext
  exact look (·.cursor.remaining) (fun _ => rfl) fun count =>
    (loop (count + 1) start hstart).anywhere

section

variable {condition : α → Prop}

/-- What is known of the items of a list stays known. -/
theorem mem_push {items : Array α} {item : α} (held : ∀ other ∈ items.toList, condition other)
    (h : condition item) : ∀ other ∈ (items.push item).toList, condition other := by
  rw [Array.toList_push]
  exact List.forall_mem_append.mpr ⟨held, List.forall_mem_singleton.mpr h⟩

/-- Of one or more items, there is at least one. -/
theorem oneOrMore {separator : TokenKind}
    (h : Grants place (On Anywhere) p fun value _ => condition value) :
    Grants place pre (oneOrMore separator p) fun values _ =>
      values ≠ [] ∧ ∀ value ∈ values, condition value := by
  refine h.anywhere.bind_value fun first hfirst => ?_
  have held : Grants place (On Anywhere) (Parser.iterate (listStep separator p) #[first])
      fun items _ => items.toList ≠ [] ∧ ∀ value ∈ items.toList, condition value := by
    refine iterate_held (fun items hitems => ?_) ?_
    · refine eat_bind ?_ ?_
      · refine h.anywhere.bind fun value => pure fun _ hvalue => ⟨?_, mem_push hitems.2 hvalue⟩
        simp [Step.state]
      · exact pure fun _ _ => hitems
    · exact ⟨List.cons_ne_nil _ _, List.forall_mem_singleton.mpr hfirst⟩
  exact held.anywhere.bind fun items => pure fun _ there => there

/-- What stands in parentheses grants the same. -/
theorem inParentheses (h : Grants place (On Anywhere) p fun value _ => condition value) :
    Grants place (On now) (inParentheses p) fun value _ => condition value := by
  refine expect_then (h.bind_value fun value hvalue => ?_)
  exact expect_then (pure fun _ _ => hvalue)

/-- Items that fail may be skipped, but not where nothing is left out. -/
theorem someItems (h : Grants place (On Anywhere) p fun value _ => condition value) :
    Grants place pre (someItems p) fun values _ =>
      (place.isWhole = true → values ≠ []) ∧ ∀ value ∈ values, condition value := by
  refine look (·.canRecover) (fun _ => rfl) fun recovers => ?_
  cases recovers with
  | false =>
    refine (oneOrMore h).mono_pre (fun _ _ => trivial) |>.mono fun values _ there => ?_
    exact ⟨fun _ => there.1, there.2⟩
  | true =>
    refine .assuming (place.isWhole = false) (fun session at' there => ?_) fun hole => ?_
    · by_contra whole
      rw [at'.canRecover (Bool.eq_true_of_not_eq_false whole)] at there
      cases there.2
    · have held : Grants place (On Anywhere) (Parser.iterate (itemStep p) #[])
          fun items _ => ∀ value ∈ items.toList, condition value := by
        refine iterate_held (fun items hitems => ?_) nofun
        have item : Grants place (On Anywhere) (Parser.orRecover (some <$> p) itemSync none)
            fun item? _ => ∀ value ∈ item?, condition value := by
          refine orRecover (map (h.mono fun value _ there => ?_)) fun _ => nofun
          rintro _ ⟨⟩
          exact there
        refine item.bind_value fun item? hitem => ?_
        have more : ∀ value ∈ (item?.elim items items.push).toList, condition value := by
          cases item? with
          | none => exact hitems
          | some value => exact mem_push hitems (hitem value rfl)
        refine eat_cases ?_ ?_
        · exact pure fun _ _ => more
        · exact pure fun _ _ => more
      refine held.anywhere.bind fun items => pure fun _ there => ⟨fun whole => ?_, there⟩
      rw [hole] at whole
      cases whole

end

/-! ### Rules -/

/-- A rule grants what its body grants inside it. -/
theorem nested {rule : Rule} {done : α → TokenCursor → Prop}
    (h : Grants (place.inside rule) (On now) p fun value session => done value session.cursor) :
    Grants place (On now) (nested rule p) fun value session => done value session.cursor := by
  intro before at' telling start
  have granted := h (inside rule before) (at'.inside rule) { telling with } start
  unfold Parser.nested
  generalize p (inside rule before) = result at granted
  cases granted with
  | ok follows telling there => exact .ok follows.outside { telling with } there
  | error follows telling tells =>
    exact .error follows.outsideFailed (telling.outsideFailed rule _) tells

/-- The application of a rule is counted. -/
theorem countRule_bind {rule : Rule} {q : Parser β} (hq : Grants place (On now) q result) :
    Grants place (On now) (countRule rule >>= fun _ => q) result := by
  unfold Grammar.countRule
  split
  · intro before at' telling start
    have counted : before.Follows before.counted := .counted before
    change Granted result before (EStateM.bind countInvocation _ before)
    unfold EStateM.bind
    rw [countInvocation_run]
    by_cases halted : before.halted = true
    · rw [if_pos halted]
      exact .error (.refl before) telling nofun
    · rw [if_neg halted]
      have telling : before.counted.Telling := { telling with }
      cases overBudget before.counted with
      | some limit => exact .error (counted.trans (.haltedBy _ _ rfl)) (telling.haltedBy rfl) nofun
      | none => exact .of_follows counted (hq _ (at'.of_follows counted) telling start)
  · exact hq

/-- Nothing has to be granted where rules nest too deep. -/
theorem refuseDepth : Grants place pre (refuseDepth : Parser α) post := by
  intro before _ telling _
  rw [refuseDepth_run]
  dsimp only
  split
  · exact .error (.refl before) telling nofun
  · exact .error (.haltedBy before _ rfl) (telling.haltedBy rfl) nofun

end Grants

end Adql
