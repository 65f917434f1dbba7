import Adql.Proofs.Composition.Arguments
import Adql.Proofs.Expected.InVain

/-!
# What is refused where

`Reads` says what a strict parse makes of words that it can read.  What a parse that fails says about
the place where it does depends on its notes, so more has to be known of the session.
`Session.Stands` says that it stands in front of words, with no notes behind the first one of them and
none about what is there; whether it may recover from failures does not matter.  `Passes` says of a
parser that it leaves such a session, and `Refuses` that it fails at a word: another kind is expected
there, and the kind of the word is not.

An expression that is read up to the end of its words is passed if a comma or a closing parenthesis
stands behind them (`Passes.argument`).
-/

namespace Adql

open Adql.Parser Adql.Grammar

variable {α β : Type}

/-! ### Sessions -/

/-- Among kinds that were looked for in vain there is no kind of a mark that is there. -/
theorem InVain.not_mem {tokenAt : Nat → Token} {position : Nat} {expected : KindSet}
    (h : InVain tokenAt position expected)
    (mark : (tokenAt position).kind = .rightParen ∨ (tokenAt position).kind = .comma) :
    (tokenAt position).kind ∉ expected := by
  intro found
  have other {kind : TokenKind} (same : (tokenAt position).kind = kind) :
      kind = .rightParen ∨ kind = .comma := same ▸ mark
  cases h found with
  | negation here _ => exact (other here).elim nofun nofun
  | typeName here _ _ => exact (other here).elim nofun nofun
  | typeLength _ _ _ here _ => exact (other here).elim nofun nofun

/-- The session stands in front of the words of the tokens that are left.  It has notes neither behind
the cursor nor about what is there. -/
structure Session.Stands (session : Session) (tokens : Array Token) (words : List Word) : Prop where
  /-- These are the tokens. -/
  tokens_eq : session.cursor.tokens = tokens
  /-- These are the words; without recovery, the parse has gone well so far. -/
  faces : session.strict.Faces words .adql fun _ => True
  /-- There are no notes behind the cursor. -/
  current : ¬session.NotesAhead
  /-- The kinds in the notes were looked for in vain. -/
  vain : session.InVain

namespace Session.Stands

variable {session after : Session} {tokens : Array Token} {word : Word} {words : List Word}

/-- What stands at the cursor is the first word. -/
theorem current_kind (h : session.Stands tokens words) : session.current.kind = firstKind words :=
  h.faces.current_kind

/-- As many words are left as tokens. -/
theorem position_add_length (h : session.Stands tokens words) (nonempty : words ≠ []) :
    session.cursor.position + words.length = tokens.size := by
  have remaining : session.cursor.remaining = words.length := h.faces.remaining
  have pos := List.length_pos_iff.mpr nonempty
  rw [TokenCursor.remaining, h.tokens_eq] at remaining
  omega

/-- Nothing is noted about the words but the first one. -/
theorem notesUpTo (h : session.Stands tokens words) {last : Nat} (pos : 0 < last)
    (le : last ≤ words.length) : session.NotesUpTo last where
  pos := pos
  noted furthest notes := by
    have nonempty : words ≠ [] := List.ne_nil_of_length_pos (Nat.lt_of_lt_of_le pos le)
    have whole := h.position_add_length nonempty
    have behind : furthest.position ≤ session.cursor.position :=
      Nat.le_of_not_lt fun ahead => h.current ⟨furthest, notes, ahead⟩
    rw [h.tokens_eq]
    omega

/-- Where no notes are about the words but the first one, none are behind the cursor. -/
theorem of_notesUpTo (tokens_eq : session.cursor.tokens = tokens)
    (faces : session.strict.Faces words .adql fun _ => True) (vain : session.InVain)
    (notes : session.NotesUpTo words.length) : session.Stands tokens words := by
  refine ⟨tokens_eq, faces, notes.not_ahead ?_, vain⟩
  have remaining : session.cursor.remaining = words.length := faces.remaining
  rw [TokenCursor.remaining] at remaining
  omega

/-- The session may change in what is not looked at. -/
theorem of_eq (h : session.Stands tokens words) (cursor : after.cursor = session.cursor)
    (settings : after.settings = session.settings) (halted : after.halted = session.halted)
    (errors : after.errors = session.errors) (furthest : after.furthest = session.furthest) :
    after.Stands tokens words where
  tokens_eq := by rw [cursor, h.tokens_eq]
  faces := h.faces.of_eq cursor (by rw [strict, strict, under, under, settings]) halted errors
  current := by
    unfold NotesAhead
    rw [furthest, cursor]
    exact h.current
  vain := ⟨by rw [cursor]; exact h.vain.genuine, by rw [furthest, cursor]; exact h.vain.notes,
    by rw [errors, cursor]; exact h.vain.errors⟩

/-- The first word may be left behind. -/
theorem advance (h : session.Stands tokens (word :: words)) :
    Stands { session with cursor := session.cursor.advance } tokens words where
  tokens_eq := by
    rw [← h.tokens_eq]
    change session.cursor.advance.tokens = _
    unfold TokenCursor.advance
    split <;> rfl
  faces := h.faces.advance
  current := by
    rintro ⟨furthest, notes, ahead⟩
    refine h.current ⟨furthest, notes, Nat.lt_of_le_of_lt ?_ ahead⟩
    change session.cursor.position ≤ session.cursor.advance.position
    unfold TokenCursor.advance
    split
    · exact Nat.le_succ _
    · exact Nat.le_refl _
  vain := h.vain.advance

end Session.Stands

/-! ### Parsers -/

/-- Standing in front of the words, the parser yields the value and leaves the rest. -/
def Passes (p : Parser α) (words : List Word) (a : α) (rest : List Word) : Prop :=
  ∀ (tokens : Array Token) (session : Session), session.Stands tokens words →
    ∃ after, p session = .ok a after ∧ after.Stands tokens rest

/-- The failure is about a position: one kind is expected there, and another one is not. -/
structure Failure.Wants (failure : Failure) (position : Nat) (wanted found : TokenKind) : Prop where
  /-- The parse is not ended. -/
  mild : failure.fatal = false
  /-- This is the position. -/
  here : failure.position = position
  /-- One kind is expected. -/
  wanted : wanted ∈ failure.expected
  /-- The other kind is not. -/
  unwanted : found ∉ failure.expected

/-- Standing in front of the words, the parser fails at the rest: one kind is expected there, and
another one is not. -/
def Refuses (p : Parser α) (words : List Word) (wanted found : TokenKind) (rest : List Word) : Prop :=
  ∀ (tokens : Array Token) (session : Session), session.Stands tokens words →
    ∃ failure after, p session = .error failure after ∧ after.errors = #[] ∧
      failure.Wants (tokens.size - rest.length) wanted found

namespace Passes

variable {p : Parser α} {f : α → Parser β} {words middle rest behind : List Word} {a : α} {b : β}
  {word : Word} {kind : TokenKind}

/-- A value is yielded at once. -/
theorem pure (a : α) (words : List Word) : Passes (pure a) words a words :=
  fun _ session stands => ⟨session, rfl, stands⟩

/-- A sequence passes what its parts pass. -/
theorem bind (hp : Passes p words a middle) (hf : Passes (f a) middle b rest) :
    Passes (p >>= f) words b rest := by
  intro tokens session stands
  obtain ⟨between, hrun, stands⟩ := hp tokens session stands
  obtain ⟨after, hrun', stands⟩ := hf tokens between stands
  exact ⟨after, bind_run_ok.mpr ⟨a, between, hrun, hrun'⟩, stands⟩

/-- The kind of the current token is the kind of the first word. -/
theorem currentKind (words : List Word) : Passes currentKind words (firstKind words) words :=
  fun _ session stands =>
    ⟨session, congrArg (EStateM.Result.ok · session) stands.current_kind, stands⟩

/-- The kind of the next token is the kind of the second word. -/
theorem nextKind (words : List Word) : Passes nextKind words (secondKind words) words :=
  fun _ session stands =>
    ⟨session, congrArg (EStateM.Result.ok · session) stands.faces.next_kind, stands⟩

/-- There are as many tokens left as words. -/
theorem remaining (words : List Word) : Passes remaining words words.length words :=
  fun _ session stands =>
    ⟨session, congrArg (EStateM.Result.ok · session) stands.faces.remaining, stands⟩

/-- The first word is passed. -/
theorem advance_bind {f : Token → Parser β} (h : ∀ token, Passes (f token) words b rest) :
    Passes (advance >>= f) (word :: words) b rest :=
  fun tokens session stands => h session.current tokens _ stands.advance

/-- A look at a kind that is there. -/
theorem check_true (h : firstKind words = kind) : Passes (check kind) words true words := by
  intro tokens session stands
  refine ⟨session, ?_, stands⟩
  rw [check_run, stands.current_kind, if_pos h]

/-- A word that is there is eaten. -/
theorem eat_true (h : word.kind = kind) : Passes (eat kind) (word :: words) true words := by
  intro tokens session stands
  refine ⟨_, ?_, stands.advance⟩
  rw [eat_run, stands.current_kind, firstKind_cons, if_pos h]

/-- A word that has to be there is passed. -/
theorem expect_bind {q : Parser β} (h : word.kind = kind) (hq : Passes q words b rest) :
    Passes (expect kind >>= fun _ => q) (word :: words) b rest := by
  unfold expect
  rw [bind_assoc]
  have there : firstKind (word :: words) = kind := h
  exact (check_true there).bind (advance_bind fun _ => hq)

/-- The application of a rule is counted. -/
theorem countRule (rule : Rule) (words : List Word) : Passes (countRule rule) words () words := by
  unfold Grammar.countRule
  split
  · intro tokens session stands
    refine ⟨session.counted, ?_, stands.of_eq rfl rfl rfl rfl rfl⟩
    have unbounded : overBudget session.counted = none := by
      rw [overBudget, show session.counted.settings.ruleBudget = none from stands.faces.unbounded]
      rfl
    rw [countInvocation_run, show session.halted = false from stands.faces.running, unbounded]
    rfl
  · exact pure () words

/-- An expression that is read up to the end of its words is passed in front of what ends an argument.
-/
theorem argument {allowance : Nat} {expr : Expr}
    (reads : Reads (apply true allowance .expression) words expr []) (closes : EndsArgument behind) :
    Passes (apply true allowance .expression) (words ++ behind) expr behind := by
  intro tokens session stands
  have within := reads.argument closes
  obtain ⟨final, run, faces⟩ := within.reads _ session.strict stands.faces
  have runs : Parallel Eq session (apply true allowance .expression session)
      (apply true allowance .expression session.strict) :=
    (apply_parallel true allowance .expression).2 session stands.vain.genuine.final
  have vain := (apply_vain true allowance .expression).2 session stands.vain
  have follows {after : Session} (h : apply true allowance .expression session = .ok expr after) :=
    ((apply_moving true allowance .expression).1 session).follows_ok h
  have pos : 0 < behind.length := by
    obtain ⟨word, rest, rfl, -⟩ := closes.exists_cons
    exact Nat.succ_pos _
  have kept := within.keeps _ session.strict stands.faces behind.length (Nat.le_refl _)
    ((stands.notesUpTo pos (by simp)).of_eq rfl rfl)
  rw [run] at runs kept
  change EndsInVain (apply true allowance .expression session) at vain
  generalize hresult : apply true allowance .expression session = result at runs vain
  cases runs with
  | @ok _ _ after same =>
    subst same
    exact ⟨after, rfl, .of_notesUpTo ((follows hresult).tokens.trans stands.tokens_eq) faces vain
      (kept.of_eq rfl rfl)⟩

end Passes

namespace Refuses

variable {p : Parser α} {f : α → Parser β} {words middle rest : List Word} {a : α} {word : Word}
  {wanted found kind : TokenKind}

/-- A sequence fails where its first part does. -/
theorem bind_left (h : Refuses p words wanted found rest) :
    Refuses (p >>= f) words wanted found rest := by
  intro tokens session stands
  obtain ⟨failure, after, hrun, clean, wants⟩ := h tokens session stands
  exact ⟨failure, after, bind_run_error.mpr (.inl hrun), clean, wants⟩

/-- A sequence fails where its rest does. -/
theorem bind_right (hp : Passes p words a middle) (hf : Refuses (f a) middle wanted found rest) :
    Refuses (p >>= f) words wanted found rest := by
  intro tokens session stands
  obtain ⟨between, hrun, stands⟩ := hp tokens session stands
  obtain ⟨failure, after, hrun', clean, wants⟩ := hf tokens between stands
  exact ⟨failure, after, bind_run_error.mpr (.inr ⟨a, between, hrun, hrun'⟩), clean, wants⟩

/-- What follows a look at the current token. -/
theorem current_bind {f : Token → Parser β}
    (h : ∀ token, token.word = words.headD endWord → Refuses (f token) words wanted found rest) :
    Refuses (current >>= f) words wanted found rest :=
  fun tokens session stands => h session.current stands.faces.current_word tokens session stands

/-- The first word is passed. -/
theorem advance_bind {f : Token → Parser β} (h : ∀ token, Refuses (f token) words wanted found rest) :
    Refuses (advance >>= f) (word :: words) wanted found rest :=
  fun tokens session stands => h session.current tokens _ stands.advance

/-- Behind a word that has to be there and is. -/
theorem expect_bind {q : Parser β} (h : word.kind = kind) (hq : Refuses q words wanted found rest) :
    Refuses (expect kind >>= fun _ => q) (word :: words) wanted found rest := by
  unfold expect
  rw [bind_assoc]
  have there : firstKind (word :: words) = kind := h
  exact .bind_right (.check_true there) (advance_bind fun _ => hq)

/-- Where a closing parenthesis or a comma stands, another word that has to be there is expected. -/
theorem expect (there : word.kind = found) (other : found ≠ wanted)
    (mark : found = .rightParen ∨ found = .comma) :
    Refuses (expect wanted) (word :: rest) wanted found (word :: rest) := by
  intro tokens session stands
  have here : session.current.kind = found := stands.current_kind.trans there
  have vain := (stands.vain.noting (here ▸ other)).failure
  have whole := stands.position_add_length (List.cons_ne_nil word rest)
  obtain ⟨furthest, noted, position, members⟩ := Session.exists_noting stands.current wanted
  rw [noted] at vain
  refine ⟨(session.noting wanted).failure, session.noting wanted, ?_, ?_, ?_⟩
  · refine bind_run_error.mpr (.inr ⟨false, session.noting wanted, ?_, rfl⟩)
    rw [check_run, here, if_neg other]
  · rw [noted]
    exact stands.faces.clean
  · rw [noted]
    have found : session.cursor.tokenAt furthest.position = session.current := by
      rw [position]
      rfl
    refine ⟨rfl, ?_, (members wanted).mpr (.inl rfl), ?_⟩
    · change furthest.position = _
      omega
    · have absent := vain.not_mem (by
        change (session.cursor.tokenAt furthest.position).kind = _ ∨
          (session.cursor.tokenAt furthest.position).kind = _
        rw [found, here]
        exact mark)
      change (session.cursor.tokenAt furthest.position).kind ∉ furthest.expected at absent
      rw [found, here] at absent
      exact absent

/-- A rule fails where its body does. -/
theorem apply {rule : Rule} {allowance : Nat}
    (h : Refuses (body true (apply true allowance) rule) words wanted found rest) :
    Refuses (Grammar.apply true (allowance + 1) rule) words wanted found rest := by
  refine .bind_right (.countRule rule words) fun tokens session stands => ?_
  obtain ⟨failure, after, run, clean, wants⟩ :=
    h tokens (inside rule session) (stands.of_eq rfl rfl rfl rfl rfl)
  refine ⟨failure, outsideFailed rule session.cursor.position after, ?_, ?_, wants⟩
  · rw [nested, run]
  · unfold outsideFailed
    split
    · exact clean
    · exact clean

end Refuses

end Adql
