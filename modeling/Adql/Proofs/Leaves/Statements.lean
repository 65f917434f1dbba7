import Adql.Proofs.Leaves.Queries
import Adql.Proofs.RoundTrip.Sources

/-!
# Parses without diagnostics lose nothing

Every rule accounts for the leaves of what it yields (`accounts_rules`), by induction on how deep the
rules may nest.  So a parse of a whole text that reports nothing has a tree, and the leaves of the tree
are the names, numbers and strings of the text, each of them once and in their order
(`leaves_of_clean`), whatever the settings are.
-/

namespace Adql

open Adql.Parser Adql.Grammar

/-! ### All rules -/

/-- Rules account for the leaves of what they yield, however deep they may nest. -/
theorem accounts_rules (lookahead : Bool) (allowance : Nat) :
    AccountsRules (apply lookahead allowance) := by
  induction allowance with
  | zero =>
    refine ⟨fun rule front => .countRule_bind .refuseDepth,
      fun rule named before after failure run => position_apply_error named run,
      fun rule => .bind_any fun _ before after value run => ?_⟩
    rw [refuseDepth_run] at run
    cases run
  | succ allowance ih =>
    refine ⟨fun rule front => .countRule_bind (.nested rule (body_accounts ih lookahead rule front)),
      fun rule named before after failure run => position_apply_error named run,
      fun rule => .bind_any fun _ => .nested rule (body_plain ih.plain lookahead rule)⟩

/-! ### Tokens of texts -/

/-- A regular name that was scanned is no reserved word. -/
theorem unreserved_scanToken {text : List Char} (h : (scanToken text).outcome = .ok .identifier) :
    Keyword.ofWord? (String.ofList (scanToken text).used) = none := by
  unfold scanToken at h ⊢
  split at h
  · cases h
  · unfold scanString at h
    split at h <;> cases h
  · unfold scanDelimited at h
    split at h
    · dsimp only at h
      split at h <;> cases h
    · cases h
  · split at h
    · rcases scanNumber_ok h with ⟨integer, _⟩ | real
      · cases integer
      · cases real
    · next noNumber =>
      rw [if_neg noNumber]
      split at h
      · next word =>
        rw [if_pos word]
        unfold scanWord at h ⊢
        dsimp only at h ⊢
        split at h
        · cases h
        · assumption
      · unfold scanSymbol at h
        split at h <;> cases h

/-- A regular name that is read from a text is no reserved word. -/
theorem Lexer.unreserved_of_next {lexer following : Lexer} {token : Token}
    (h : lexer.next = (.ok token, following)) : token.Unreserved := by
  unfold next at h
  simp only at h
  split at h
  · cases h
  · obtain ⟨answer, -⟩ := Prod.mk.inj h
    unfold Lexeme.answer at answer
    split at answer
    · next kind accepted =>
      cases answer
      intro regular
      obtain rfl : kind = .identifier := regular
      exact unreserved_scanToken accepted
    · cases answer

/-- A text is cut into tokens whose regular names are not reserved, with one end marker, the last. -/
theorem Lexer.unreserved_of_tokens {lexer : Lexer} {tokens : List Token}
    (h : lexer.tokens = .ok tokens) : ∃ front last, tokens = front ++ [last] ∧ last.isEnd = true ∧
      ∀ token ∈ front, token.isEnd = false ∧ token.Unreserved := by
  induction hlength : lexer.rest.length using Nat.strongRecOn generalizing lexer tokens with
  | ind length ih =>
    subst hlength
    rw [lexer.tokens_eq] at h
    split at h
    · cases h
    · next token following hnext =>
      split at h
      · next last =>
        cases h
        exact ⟨[], token, rfl, last, fun _ h => absurd h List.not_mem_nil⟩
      · next more =>
        have inside : token.isEnd = false := Bool.eq_false_iff.mpr more
        cases hothers : following.tokens with
        | error error => rw [hothers] at h; cases h
        | ok others =>
          rw [hothers] at h
          cases h
          have shorter := length_next_lt hnext inside
          obtain ⟨front, last, rfl, ends, hfront⟩ := ih _ shorter hothers rfl
          have first := unreserved_of_next hnext
          exact ⟨token :: front, last, rfl, ends, List.forall_mem_cons.mpr ⟨⟨inside, first⟩, hfront⟩⟩

namespace Session

variable {session : Session} {leaves : List Leaf}

/-- Nothing is reported at the end of a statement only if the end marker stands there, at most behind
a semicolon. -/
theorem end_of_finished (read : session.cursor.Read leaves) (sound : session.cursor.Sound)
    (clean : session.finished.errors.toList = []) :
    ∃ behind : Session, session.Follows behind ∧ behind.cursor.Read leaves ∧
      behind.current.kind = .eof := by
  have eats : Accounts AnyToken leaves (eat .semicolon) fun _ => leaves := by
    have eats : Accounts AnyToken leaves (eat .semicolon >>= pure) fun _ => leaves :=
      .eat_bind rfl (.pure rfl) (.pure rfl)
    rwa [bind_pure] at eats
  obtain ⟨there, behind, run⟩ : ∃ there behind, eat .semicolon session = .ok there behind := by
    rw [eat_run]
    split <;> exact ⟨_, _, rfl⟩
  have finished : session.finished = if behind.current.kind = .eof then behind
      else (behind.noting .eof).reporting (behind.noting .eof).failure := by
    unfold Session.finished
    rw [run]
    rfl
  rw [finished] at clean
  split at clean
  · next ends =>
    refine ⟨behind, (eats.moves session).follows_ok run, ?_, ends⟩
    exact eats.reads session behind there sound trivial read run clean
  · rw [errors_reporting] at clean
    exact absurd clean (by simp)

/-- A parse without diagnostics has a tree whose leaves stand for the names, numbers and strings among
the tokens, if all tokens are those of a text. -/
theorem leaves_of_clean (start : session.cursor.position = 0) (sound : session.cursor.Sound)
    (running : session.halted = false)
    (inside : ∀ token ∈ session.cursor.tokens.toList, token.isEnd = false)
    (clean : session.parse.errors = []) :
    ∃ tree, session.parse.tree = some tree ∧
      List.Forall₂ Token.StandsFor (session.cursor.tokens.toList.filter Token.isLeaf)
        tree.leaves := by
  obtain ⟨tree, found⟩ := tree_of_errors_eq_nil running clean
  refine ⟨tree, found, ?_⟩
  cases short : session.tokenLimit? with
  | some error =>
    rw [parse, parseWith, short] at found
    cases found
  | none =>
    cases run : applyRule .query session with
    | error failure after =>
      rw [parse_of_error short run] at found
      cases found
    | ok tree' after =>
      rw [parse_of_ok short run] at found clean
      split at found
      · cases found
      · next alive =>
        rw [if_neg alive] at clean
        cases found
        have rules := accounts_rules true session.settings.maxDepth
        have query : Accounts AnyToken [] (apply true session.settings.maxDepth .query) fun query =>
            [] ++ query.leaves := rules.rule .query rfl
        have follows := (query.moves session).follows_ok run
        have nothing : session.cursor.Read [] := by
          rw [TokenCursor.Read, start, List.take_zero]
          exact .nil
        have read := query.reads session after tree sound trivial nothing run
          ((Follows.finished after).quiet clean)
        obtain ⟨behind, follows', read', ends⟩ := end_of_finished read (follows.sound sound) clean
        have same : behind.cursor.tokens = session.cursor.tokens := (follows.trans follows').tokens
        -- the end marker is not one of the tokens in front of it
        rcases behind.cursor.current_cases with ⟨within, current⟩ | ⟨beyond, _⟩
        · have mem : behind.cursor.current ∈ behind.cursor.tokens.toList :=
            current ▸ Array.getElem_mem_toList within
          rw [same] at mem
          have more := inside _ mem
          rw [Token.isEnd, show behind.cursor.current.kind = .eof from ends] at more
          cases more
        · have all : behind.cursor.tokens.toList.take behind.cursor.position =
              behind.cursor.tokens.toList := List.take_of_length_le (by simpa using beyond)
          rw [TokenCursor.Read, all, same] at read'
          exact read'

end Session

/-- A text with a select item that is no wildcard and a parenthesis that is no query. -/
def leafySource : String :=
  "SELECT TOP 5 t.*, t.a b FROM (t JOIN u USING (d)) WHERE e = 'x' OFFSET 7"

end Adql
