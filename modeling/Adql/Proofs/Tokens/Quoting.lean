import Adql.Proofs.RoundTrip.Sources
import Adql.Proofs.Tokens.Lexemes
import Adql.Tree.Printer

/-!
# Quoting and reading quoted texts

String literals and delimited identifiers are printed between quotes, and the quotes of their own
text are doubled.  What is printed is one token, from its first character to its last one
(`Word.CutOff.tokenize`), and the text is found again in it.  Conversely, a quoted token of any source
is written as the printer writes the text that it stands for (`Token.spelled_of_mem`): there is no other
way to write that text.
-/

namespace Adql

open Adql.Text

/-! ### Texts that are one token -/

/-- A word that is cut off at the end of the text is the only token of its text. -/
theorem Word.CutOff.tokenize {word : Word} (h : word.CutOff []) :
    tokenize word.lexeme =
      .ok [⟨word.kind, word.lexeme, ⟨0, (Position.origin.advance word.lexeme.toList).offset⟩, 0, 0⟩,
        .endAt (Position.origin.advance word.lexeme.toList)] := by
  have first := h.next .origin
  rw [List.append_nil] at first
  have more : word.kind ≠ .eof := h.more
  have ended (place : Position) : (Lexer.mk [] place).tokens = .ok [.endAt place] := by
    rw [Lexer.tokens_eq]
    rfl
  rw [Adql.tokenize, Lexer.ofText, Lexer.tokens_of_next first (by simpa [Token.isEnd] using more),
    ended]
  rfl

/-! ### Tokens that are quoted texts -/

/-- A string literal or a delimited identifier that was scanned is written as the printer writes it. -/
theorem spelled_of_scanToken {text : List Char} {kind : TokenKind}
    (h : (scanToken text).outcome = .ok kind)
    (isQuoted : kind = .string ∨ kind = .delimitedIdentifier) :
    Word.Spelled ⟨kind, String.ofList (scanToken text).used⟩ := by
  -- what is scanned in any other way has another kind
  have other {found : TokenKind} (same : found = kind) (string : found ≠ .string)
      (delimited : found ≠ .delimitedIdentifier) : False := by
    subst same
    exact isQuoted.elim string delimited
  have scanned := h
  unfold scanToken at scanned ⊢
  split at scanned
  · exact (other (Except.ok.inj scanned) nofun nofun).elim
  · unfold scanString at scanned ⊢
    split at scanned
    · next body left closed =>
      obtain ⟨value, written, -⟩ := exists_quoted_of_closeQuote closed
      obtain rfl := Except.ok.inj scanned
      exact ⟨value, written⟩
    · cases scanned
  · unfold scanDelimited at scanned ⊢
    split at scanned
    · next body left closed =>
      obtain ⟨name, written, empty⟩ := exists_quoted_of_closeQuote closed
      dsimp only at scanned
      split at scanned
      · cases scanned
      · next nonempty =>
        obtain rfl := Except.ok.inj scanned
        exact ⟨name, fun none => nonempty (empty.mpr none), written⟩
    · cases scanned
  · split at scanned
    · obtain ⟨integer, -⟩ | real := scanNumber_ok scanned
      · exact (other integer.symm nofun nofun).elim
      · exact (other real.symm nofun nofun).elim
    · split at scanned
      · unfold scanWord at scanned
        dsimp only at scanned
        split at scanned
        · exact (other (Except.ok.inj scanned) nofun nofun).elim
        · exact (other (Except.ok.inj scanned) nofun nofun).elim
      · unfold scanSymbol at scanned
        split at scanned
        case h_23 => cases scanned
        case h_24 => exact (other (Except.ok.inj scanned) nofun nofun).elim
        all_goals exact (other (Except.ok.inj scanned) nofun nofun).elim

/-- A quoted token of a source is written as the printer writes it. -/
theorem Token.spelled_of_mem {source : String} {tokens : List Token} {token : Token}
    (h : tokenize source = .ok tokens) (found : token ∈ tokens)
    (isQuoted : token.kind = .string ∨ token.kind = .delimitedIdentifier) :
    token.word.Spelled := by
  have more : token.kind ≠ .eof := by
    obtain string | delimited := isQuoted
    · rw [string]
      exact nofun
    · rw [delimited]
      exact nofun
  have cut := Lexer.cutOff_of_tokens h token found more
  have scanned := cut.scanned
  have spelled := spelled_of_scanToken (congrArg Lexeme.outcome scanned) isQuoted
  rw [scanned, String.ofList_toList] at spelled
  exact spelled

/-! ### There and back -/

/-- Quoting and unquoting are inverse: what is printed for a text is one token, which stands for that
text, and what is printed for the text of a quoted token is its lexeme. -/
theorem quoting_inverse :
    (∀ value : String, ∃ token final,
      tokenize (Literal.string value).text = .ok [token, final] ∧ token.kind = .string ∧
        final.kind = .eof ∧ unquoted '\'' token.lexeme = value) ∧
    (∀ name : String, name ≠ "" → ∃ token final,
      tokenize (Identifier.delimited name).text = .ok [token, final] ∧
        token.kind = .delimitedIdentifier ∧ final.kind = .eof ∧ unquoted '"' token.lexeme = name) ∧
    ∀ source tokens, tokenize source = .ok tokens → ∀ token ∈ tokens,
      (token.kind = .string → (Literal.string (unquoted '\'' token.lexeme)).text = token.lexeme) ∧
      (token.kind = .delimitedIdentifier →
        (Identifier.delimited (unquoted '"' token.lexeme)).text = token.lexeme) := by
  refine ⟨fun value => ?_, fun name nonempty => ?_, fun source tokens h token found => ⟨?_, ?_⟩⟩
  · have spelled : (Literal.string value).word.Spelled := ⟨value, rfl⟩
    have cut := (spelled.legible.cutOff (Apart.fits (startsAmong_nil _) _)).tokenize
    exact ⟨_, _, cut, rfl, rfl, unquoted_quoted '\'' value⟩
  · have spelled : (Identifier.delimited name).word.Spelled := ⟨name, nonempty, rfl⟩
    have cut := (spelled.legible.cutOff (Apart.fits (startsAmong_nil _) _)).tokenize
    exact ⟨_, _, cut, rfl, rfl, unquoted_quoted '"' name⟩
  · intro string
    have spelled := Token.spelled_of_mem h found (.inl string)
    rw [Word.Spelled, Token.word, string] at spelled
    obtain ⟨value, written⟩ : ∃ value, token.lexeme = quoted '\'' value := spelled
    rw [written, unquoted_quoted]
    rfl
  · intro delimited
    have spelled := Token.spelled_of_mem h found (.inr delimited)
    rw [Word.Spelled, Token.word, delimited] at spelled
    obtain ⟨name, -, written⟩ : ∃ name, name ≠ "" ∧ token.lexeme = quoted '"' name := spelled
    rw [written, unquoted_quoted]
    rfl

/-- Quotes at the start, in the middle and at the end of a text are found again, and a source that is
written with doubled quotes is printed as it stands. -/
theorem quoting_inverse_runs :
    (∃ token final, tokenize (Literal.string "'a''b'").text = .ok [token, final] ∧
      token.kind = .string ∧ final.kind = .eof ∧ unquoted '\'' token.lexeme = "'a''b'") ∧
    ("\"" ≠ "" ∧ ∃ token final, tokenize (Identifier.delimited "\"").text = .ok [token, final] ∧
      token.kind = .delimitedIdentifier ∧ final.kind = .eof ∧ unquoted '"' token.lexeme = "\"") ∧
    ∃ tokens, tokenize "'''' \"x\"" = .ok tokens ∧ ∀ token ∈ tokens,
      (token.kind = .string → (Literal.string (unquoted '\'' token.lexeme)).text = token.lexeme) ∧
      (token.kind = .delimitedIdentifier →
        (Identifier.delimited (unquoted '"' token.lexeme)).text = token.lexeme) := by
  have cut : tokenize "'''' \"x\"" =
      .ok [⟨.string, "''''", ⟨0, 4⟩, 0, 0⟩, ⟨.delimitedIdentifier, "\"x\"", ⟨5, 8⟩, 0, 5⟩,
        .endAt ⟨8, 0, 8⟩] := by decide +kernel
  obtain ⟨strings, names, sources⟩ := quoting_inverse
  exact ⟨strings _, ⟨by decide, names _ (by decide)⟩, _, cut, sources _ _ cut⟩

end Adql
