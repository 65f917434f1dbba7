import Adql.Proofs.Grammar.Progress
import Adql.Proofs.RoundTrip.Words

/-!
# Sessions in front of words

`Session.Faces` says that a parse that has gone well so far, without recovery and without a budget,
stands in front of given words.  Everything that a rule looks at is in the words: the kinds ahead,
the texts of the tokens, and how many tokens are left.
-/

namespace Adql

open Adql.Parser Adql.Grammar

/-! ### Words ahead -/

/-- The kind of the first word; behind the last word there is the end marker. -/
def firstKind : List Word → TokenKind
  | [] => .eof
  | word :: _ => word.kind

/-- The kind of the second word. -/
def secondKind : List Word → TokenKind
  | _ :: word :: _ => word.kind
  | _ => .eof

/-- The kind of the first word is that word's kind. -/
@[simp] theorem firstKind_cons (word : Word) (words : List Word) :
    firstKind (word :: words) = word.kind := rfl

/-- There is no first word, so the end marker stands there. -/
@[simp] theorem firstKind_nil : firstKind [] = .eof := rfl

/-- The kind of the second word is the kind of the first word behind the first one. -/
@[simp] theorem secondKind_cons (word : Word) (words : List Word) :
    secondKind (word :: words) = firstKind words := by
  cases words <;> rfl

/-- In front of a kind other than the end marker, there is a first word. -/
theorem exists_cons_of_firstKind {words : List Word} {kind : TokenKind} (hkind : kind ≠ .eof)
    (h : firstKind words = kind) : ∃ word rest, words = word :: rest ∧ word.kind = kind := by
  cases words with
  | nil => exact absurd h.symm hkind
  | cons word rest => exact ⟨word, rest, rfl, h⟩

namespace Session

/-- The words from the cursor on. -/
def words (session : Session) : List Word :=
  (session.cursor.tokens.toList.drop session.cursor.position).map Token.word

/-- The session stands in front of the words; there is no recovery and no budget, the parse follows
the precedence table, which is the one of the language unless another one is given, and there are no
diagnostics so far.  All words are good; if nothing else is said, what they stand for can be
written. -/
structure Faces (session : Session) (words : List Word) (table : PrecedenceTable := .adql)
    (good : Word → Prop := Word.Sound) : Prop where
  /-- These words are left. -/
  words_eq : session.words = words
  /-- There is no recovery. -/
  strict : session.settings.recover = false
  /-- There is no budget. -/
  unbounded : session.settings.ruleBudget = none
  /-- The precedence is the one of the table. -/
  precedence : session.settings.precedence = table
  /-- No limit has ended the parse. -/
  running : session.halted = false
  /-- There are no diagnostics. -/
  clean : session.errors = #[]
  /-- Behind the tokens stands an end marker. -/
  final : session.cursor.final.word = endWord
  /-- All words are good. -/
  sound : ∀ token ∈ session.cursor.tokens.toList, good token.word

namespace Faces

variable {session after : Session} {words rest : List Word} {word : Word}
  {table : PrecedenceTable} {good : Word → Prop}

/-- What a rule does besides moving the cursor does not change the words ahead. -/
theorem of_eq (h : session.Faces words table good) (cursor : after.cursor = session.cursor)
    (settings : after.settings = session.settings) (halted : after.halted = session.halted)
    (errors : after.errors = session.errors) : after.Faces words table good where
  words_eq := by
    rw [Session.words, cursor]
    exact h.words_eq
  strict := by rw [settings]; exact h.strict
  unbounded := by rw [settings]; exact h.unbounded
  precedence := by rw [settings]; exact h.precedence
  running := by rw [halted]; exact h.running
  clean := by rw [errors]; exact h.clean
  final := by rw [cursor]; exact h.final
  sound := by rw [cursor]; exact h.sound

/-- The first word is good. -/
theorem sound_head (h : session.Faces (word :: rest) table good) : good word := by
  have hmem : word ∈ session.words := by
    rw [h.words_eq]
    exact List.mem_cons_self
  obtain ⟨token, htoken, rfl⟩ := List.mem_map.mp hmem
  exact h.sound token (List.mem_of_mem_drop htoken)

/-- A token ahead is the token of its word, or the end marker. -/
theorem peek_word (h : session.Faces words table good) (ahead : Nat) :
    (session.cursor.peek ahead).word = words[ahead]?.getD endWord := by
  rw [← h.words_eq, TokenCursor.peek, TokenCursor.tokenAt, Session.words, List.getElem?_map,
    List.getElem?_drop, Array.getElem?_toList]
  cases session.cursor.tokens[session.cursor.position + ahead]? with
  | none => exact h.final
  | some token => rfl

/-- The current token is the token of the first word, or the end marker. -/
theorem current_word (h : session.Faces words table good) :
    session.current.word = words.headD endWord := by
  have found := h.peek_word 0
  rw [TokenCursor.peek_zero] at found
  rw [Session.current, found]
  cases words <;> rfl

/-- The kind of the current token is the kind of the first word. -/
theorem current_kind (h : session.Faces words table good) :
    session.current.kind = firstKind words := by
  have found := congrArg Word.kind h.current_word
  cases words with
  | nil => exact found
  | cons word rest => exact found

/-- The kind of the token behind the current one is the kind of the second word. -/
theorem next_kind (h : session.Faces words table good) :
    (session.cursor.peek 1).kind = secondKind words := by
  have found := congrArg Word.kind (h.peek_word 1)
  match words with
  | [] => exact found
  | [_] => exact found
  | _ :: _ :: _ => exact found

/-- The kinds ahead are the kinds of the words. -/
theorem kindsAhead (h : session.Faces words table good) :
    session.cursor.kindsAhead = words.map (·.kind) ++ [.eof] := by
  have final : session.cursor.final.kind = .eof := congrArg Word.kind h.final
  rw [TokenCursor.kindsAhead, final, ← h.words_eq, Session.words, List.map_map]
  rfl

/-- There are as many tokens left as words. -/
theorem remaining (h : session.Faces words table good) :
    session.cursor.remaining = words.length := by
  rw [TokenCursor.remaining, ← h.words_eq, Session.words, List.length_map, List.length_drop,
    Array.length_toList]

/-- Behind the current token the first word is gone. -/
theorem advance (h : session.Faces (word :: rest) table good) :
    Session.Faces { session with cursor := session.cursor.advance } rest table good := by
  have hlength := h.remaining
  have inside : session.cursor.position < session.cursor.tokens.size := by
    rw [TokenCursor.remaining, List.length_cons] at hlength
    omega
  have moved : session.cursor.advance =
      { session.cursor with position := session.cursor.position + 1 } := by
    rw [TokenCursor.advance, if_pos inside]
  have hwords := h.words_eq
  refine ⟨?_, h.strict, h.unbounded, h.precedence, h.running, h.clean, ?_, ?_⟩
  · rw [Session.words] at hwords ⊢
    dsimp only
    rw [moved]
    dsimp only
    rw [← List.drop_drop, List.map_drop, hwords]
    rfl
  · dsimp only
    rw [moved]
    exact h.final
  · dsimp only
    rw [moved]
    exact h.sound

/-- Behind the current token, if there is one, the first word is gone. -/
theorem advance_tail (h : session.Faces words table good) :
    Session.Faces { session with cursor := session.cursor.advance } words.tail table good := by
  cases words with
  | cons word rest => exact h.advance
  | nil =>
    have hlength := h.remaining
    have stays : session.cursor.advance = session.cursor := by
      rw [TokenCursor.remaining, List.length_nil] at hlength
      rw [TokenCursor.advance, if_neg (by omega)]
    exact h.of_eq stays rfl rfl rfl

/-- Wherever the cursor goes, there are words ahead. -/
theorem moveTo (h : session.Faces words table good) (position : Nat) :
    Session.Faces { session with cursor := session.cursor.moveTo position }
      (Session.words { session with cursor := session.cursor.moveTo position }) table good :=
  { h with words_eq := rfl }

/-- Noting a kind does not change the words ahead. -/
theorem noting (h : session.Faces words table good) (kind : TokenKind) :
    (session.noting kind).Faces words table good := by
  unfold Session.noting
  cases session.furthest with
  | none => exact h.of_eq rfl rfl rfl rfl
  | some furthest =>
    dsimp only
    split
    · exact h
    · split
      · exact h.of_eq rfl rfl rfl rfl
      · exact h.of_eq rfl rfl rfl rfl

/-- Noting several kinds does not change the words ahead. -/
theorem foldl_noting (h : session.Faces words table good) (kinds : List TokenKind) :
    (kinds.foldl Session.noting session).Faces words table good := by
  induction kinds generalizing session with
  | nil => exact h
  | cons kind kinds ih => exact ih (h.noting kind)

/-- Dropping notes does not change the words ahead. -/
theorem dropNotesAhead (h : session.Faces words table good) :
    (dropNotesAhead session).Faces words table good := by
  unfold Parser.dropNotesAhead
  cases session.furthest with
  | none => exact h
  | some furthest =>
    dsimp only
    split
    · exact h.of_eq rfl rfl rfl rfl
    · exact h

/-- Going back to where a session stood that faced words leads to these words. -/
theorem restored {start : Session} {other : List Word} (h : start.Faces words table good)
    (h' : after.Faces other table good) (tokens : after.cursor.tokens = start.cursor.tokens)
    (position : after.cursor.position = start.cursor.position) : after.Faces words table good where
  words_eq := by
    rw [Session.words, tokens, position]
    exact h.words_eq
  strict := h'.strict
  unbounded := h'.unbounded
  precedence := h'.precedence
  running := h'.running
  clean := h'.clean
  final := h'.final
  sound := h'.sound

end Faces

/-- A session in front of the words. -/
def facing (words : List Word) (table : PrecedenceTable) : Session where
  cursor := ⟨(words.map Word.token).toArray, endWord.token, 0⟩
  settings := { recover := false, ruleBudget := none, precedence := table }
  furthest := none
  rules := []
  errors := #[]
  invocations := 0
  depth := 0
  speculation := 0
  queryDepth := 0
  halted := false

/-- In front of any words there is a session. -/
theorem faces_facing (words : List Word) (table : PrecedenceTable) :
    (facing words table).Faces words table fun _ => True where
  words_eq := by
    have same : Token.word ∘ Word.token = id := funext Word.word_token
    simp [Session.words, facing, same]
  strict := rfl
  unbounded := rfl
  precedence := rfl
  running := rfl
  clean := rfl
  final := rfl
  sound := fun _ _ => trivial

end Session

end Adql
