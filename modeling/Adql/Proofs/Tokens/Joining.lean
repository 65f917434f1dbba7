import Adql.Proofs.Tokens.Lexemes

/-!
# Texts that are joined

A source is cut into the same words wherever it stands, if a newline follows it: the newline ends the
token or the line comment that the source ends with (`Lexer.cuts_append_newline`).  So a source may be
put in parentheses, with a newline in front of the closing one, in any text of written words
(`tokenize_enclosed`).  Where the source does not end in a line comment, a comma or a parenthesis may
follow at once (`joins_of_closed`).  What stands behind an opening parenthesis up to the end of a text is cut into
the same words behind any other one (`exists_cuts_of_opened`, `tokenize_opened`).
-/

namespace Adql

open Adql.Text

variable {tokens : List Token} {words others : List Word}

/-- The tokens of a source are those of words and an end marker. -/
theorem exists_words_of_tokenize {source : String} (h : tokenize source = .ok tokens) :
    ∃ words, tokens.map Token.word = words ++ [endWord] ∧ ∀ word ∈ words, word.kind ≠ .eof := by
  have read : (Lexer.ofText source).HasRead [] source := ⟨rfl, rfl⟩
  obtain ⟨others, place, split, -, texts⟩ := read.ends h
  refine ⟨others.map Token.word, by simp [split, Token.word, Token.endAt, endWord], fun word mem => ?_⟩
  obtain ⟨token, found, rfl⟩ := List.mem_map.mp mem
  exact (texts token found).1

/-- A source is cut into the same words in front of a text that ends tokens, as far as the gap that the
source ends with may stand in front of that text. -/
theorem Lexer.exists_lastGap {lexer : Lexer} (h : lexer.tokens = .ok tokens)
    (written : tokens.map Token.word = words ++ [endWord]) :
    ∃ gap, IsGap gap [] ∧ ∀ more others, (∀ c ∈ more.head?, endsTokens c = true) →
      Cuts (gap ++ more) others → Cuts (lexer.rest ++ more) (words ++ others) := by
  refine Lexer.tokens_induction (motive := fun lexer tokens => ∀ words,
    tokens.map Token.word = words ++ [endWord] → ∃ gap, IsGap gap [] ∧
      ∀ more others, (∀ c ∈ more.head?, endsTokens c = true) → Cuts (gap ++ more) others →
        Cuts (lexer.rest ++ more) (words ++ others)) ?_ ?_ h words written
  · intro lexer token following hnext ends words written
    obtain ⟨gap, split, isGap, -, -, -, empty, nothing⟩ := split_of_next hnext
    have final : token.kind = .eof := of_decide_eq_true ends
    have last : words = [] := by
      have length := congrArg List.length written
      simpa using length
    rw [empty.mpr final, nothing final] at split isGap
    exact ⟨gap, isGap, fun more others _ cut => by simpa [split, last] using cut⟩
  · intro lexer token following rest hnext inner ih words written
    have kind : token.kind ≠ .eof := of_decide_eq_false inner
    cases words with
    | nil => exact absurd (congrArg Word.kind (List.cons.inj written).1) kind
    | cons word words =>
      obtain ⟨rfl, writtenRest⟩ := List.cons.inj written
      obtain ⟨gap, split, isGap, -⟩ := split_of_next hnext
      obtain ⟨last, isLast, longer⟩ := ih words writtenRest
      have cutOff := cutOff_of_next hnext kind
      refine ⟨last, isLast, fun more others ends cut => ?_⟩
      have behind := (longer more others ends cut).cutOff
        (cutOff.severed (.extended ends following.rest))
      have whole := behind.gap (isGap.exchange cutOff.ne_nil _)
      simpa [split, Token.word] using whole

/-- A source that is cut into words, and a text behind it on a line of its own, are cut into the words
of both. -/
theorem Lexer.cuts_append_newline {lexer : Lexer} (h : lexer.tokens = .ok tokens)
    (written : tokens.map Token.word = words ++ [endWord]) {more : List Char}
    (cut : Cuts more others) : Cuts (lexer.rest ++ '\n' :: more) (words ++ others) := by
  obtain ⟨gap, isGap, longer⟩ := exists_lastGap h written
  have newline : ∀ c ∈ ('\n' :: more).head?, endsTokens c = true := by
    simp [show endsTokens '\n' = true from rfl]
  have behind := cut.gap (isGap.append_newline rfl more)
  rw [List.append_assoc] at behind
  exact longer _ others newline behind

/-! ### Texts that end in a line comment -/

/-- The number of tokens of a text, the end marker included. -/
def tokenCount (text : String) : Nat :=
  match tokenize text with
  | .ok tokens => tokens.length
  | .error _ => 0

/-- The tokens of a text are counted. -/
theorem tokenCount_eq {text : String} (h : tokenize text = .ok tokens) :
    tokenCount text = tokens.length := by
  rw [tokenCount, h]

/-- Does the text end in a line comment?  Then a comma behind it is no token, but belongs to the
comment. -/
def endsInLineComment (text : String) : Bool :=
  tokenCount (text ++ ",") = tokenCount text

/-- Are the text and any text behind it that ends tokens cut into the given words and those of the other
text? -/
def Joins (source : String) (words : List Word) : Prop :=
  ∀ more others, (∀ c ∈ more.head?, endsTokens c = true) → Cuts more others →
    Cuts (source.toList ++ more) (words ++ others)

/-- A source that does not end in a line comment is cut into its words in front of any text that ends
tokens. -/
theorem joins_of_closed {source : String} (h : tokenize source = .ok tokens)
    (written : tokens.map Token.word = words ++ [endWord])
    (closed : endsInLineComment source = false) : Joins source words := by
  intro more others ends cut
  have read : (Lexer.ofText source).tokens = .ok tokens := h
  obtain ⟨gap, isGap, longer⟩ := Lexer.exists_lastGap read written
  obtain anywhere | taken := isGap.closed_or_open rfl
  · exact longer more others ends (cut.gap (anywhere more))
  · -- the comma is taken in by the comment, so it adds no token
    have comma : Cuts (source.toList ++ [',']) (words ++ []) := by
      refine longer [','] [] (by simp [endsTokens]) ?_
      have none := Cuts.nil.gap (taken [','] (by decide))
      rwa [List.append_nil] at none
    obtain ⟨tokens', cut', written'⟩ := comma .origin
    have cut' : tokenize (source ++ ",") = .ok tokens' := by
      rw [tokenize, Lexer.ofText, String.toList_append]
      exact cut'
    have same : tokens'.length = tokens.length := by
      have length := congrArg List.length (written'.trans (List.append_nil words ▸ written.symm))
      simpa using length
    rw [endsInLineComment, tokenCount_eq h, tokenCount_eq cut', same] at closed
    exact absurd rfl (of_decide_eq_false closed)

/-- Texts with commas between them are cut into their words with commas between them. -/
theorem joins_commaSeparated {texts : List String} {rows : List (List Word)}
    (h : List.Forall₂ Joins texts rows) : Joins (commaSeparated texts) (separated .comma rows) := by
  induction h with
  | nil => exact fun _ _ _ cut => cut
  | cons first rest ih =>
    cases rest with
    | nil => exact first
    | @cons text row texts rows _ _ =>
      intro more others ends cut
      have mark : TokenKind.comma.word.Legible := .inl rfl
      have behind : Cuts (',' :: ' ' :: ((commaSeparated (text :: texts)).toList ++ more))
          (TokenKind.comma.word :: (separated .comma (row :: rows) ++ others)) :=
        Cuts.word mark (startsAmong_cons _ (by decide)) (ih more others ends cut).space
      have joined := first _ _ (by simp [endsTokens]) behind
      simpa [commaSeparated, separated] using joined

/-- A text that is cut into tokens where it stands is cut into their words wherever it stands. -/
theorem Lexer.cuts_of_tokens {lexer : Lexer} (h : lexer.tokens = .ok tokens) :
    ∃ words, Cuts lexer.rest words := by
  refine Lexer.tokens_induction (motive := fun lexer _ => ∃ words, Cuts lexer.rest words) ?_ ?_ h
  · intro lexer token following hnext ends
    obtain ⟨gap, split, isGap, -, -, -, empty, nothing⟩ := split_of_next hnext
    have final : token.kind = .eof := of_decide_eq_true ends
    rw [empty.mpr final, nothing final] at split isGap
    have cut := Cuts.nil.gap isGap
    exact ⟨[], by simpa [split] using cut⟩
  · rintro lexer token following rest hnext inner ⟨words, cut⟩
    have kind : token.kind ≠ .eof := of_decide_eq_false inner
    obtain ⟨gap, split, isGap, -⟩ := split_of_next hnext
    have longer := (cut.cutOff (cutOff_of_next hnext kind)).gap isGap
    exact ⟨token.word :: words, by simpa [split, Token.word] using longer⟩

/-! ### Texts behind an opening parenthesis -/

/-- What stands behind a word that is cut off is cut into tokens if the whole text is. -/
theorem Word.CutOff.tokens_behind {word : Word} {rest : List Char} (h : word.CutOff rest)
    {place : Position} (cut : (Lexer.mk (word.lexeme.toList ++ rest) place).tokens = .ok tokens) :
    ∃ place' tokens', (Lexer.mk rest place').tokens = .ok tokens' := by
  rw [Lexer.tokens_of_next (h.next place) (by simpa [Token.isEnd] using h.more)] at cut
  cases behind : (Lexer.mk rest (place.advance word.lexeme.toList)).tokens with
  | ok tokens' => exact ⟨_, tokens', behind⟩
  | error error =>
    rw [behind] at cut
    cases cut

section

variable {front source : String} {frontWords : List Word}
  (opens : front.toList = (frontWords.flatMap fun word => word.lexeme.toList ++ [' ']) ++ ['('])
  (spelled : ∀ word ∈ frontWords, word.Spelled)

include opens spelled

/-- A text that is cut behind words and an opening parenthesis is cut wherever it stands. -/
theorem exists_cuts_of_opened (h : tokenize (front ++ source) = .ok tokens) :
    ∃ words, Cuts source.toList words := by
  have behind (words : List Word) (spelled : ∀ word ∈ words, word.Spelled) (place : Position)
      (tokens : List Token) (cut : (Lexer.mk ((words.flatMap fun word => word.lexeme.toList ++ [' ']) ++
        '(' :: source.toList) place).tokens = .ok tokens) :
      ∃ place' tokens', (Lexer.mk ('(' :: source.toList) place').tokens = .ok tokens' := by
    induction words generalizing place tokens with
    | nil => exact ⟨place, tokens, cut⟩
    | cons word words ih =>
      obtain ⟨first, others⟩ := List.forall_mem_cons.mp spelled
      have apart : Apart (' ' :: ((words.flatMap fun word => word.lexeme.toList ++ [' ']) ++
          '(' :: source.toList)) := startsAmong_cons _ (by decide)
      rw [List.flatMap_cons, List.append_assoc, List.append_assoc] at cut
      obtain ⟨place', tokens', cut'⟩ := (first.legible.cutOff (apart.fits _)).tokens_behind cut
      exact ih others _ tokens' ((Lexer.tokens_space _ place').symm.trans cut')
  rw [tokenize, Lexer.ofText, String.toList_append, opens, List.append_assoc] at h
  obtain ⟨place, tokens', cut⟩ := behind frontWords spelled _ _ h
  have mark : TokenKind.leftParen.word.Legible := .inl rfl
  obtain ⟨place', tokens'', cut'⟩ := (mark.cutOff trivial).tokens_behind cut
  exact Lexer.cuts_of_tokens cut'

/-- A text is put behind words and an opening parenthesis. -/
theorem tokenize_opened (cut : Cuts source.toList words) :
    ∃ all, tokenize (front ++ source) = .ok all ∧
      all.map Token.word = frontWords ++ TokenKind.leftParen.word :: words ++ [endWord] := by
  let before := String.ofList (frontWords.flatMap fun word => word.lexeme.toList ++ [' '])
  have leads : Leads before frontWords := leads_words frontWords String.toList_ofList
  have mark : TokenKind.leftParen.word.Legible := .inl rfl
  have opening : Cuts ('(' :: source.toList) (TokenKind.leftParen.word :: words) :=
    Cuts.word mark trivial cut
  obtain ⟨all, cut, same⟩ :=
    leads.cuts (fun word mem => (spelled word mem).legible) trivial opening .origin
  have text : (front ++ source).toList = before.toList ++ '(' :: source.toList := by
    simp [opens, before]
  refine ⟨all, ?_, same⟩
  rw [tokenize, Lexer.ofText, text]
  exact cut

end

/-- A source is put in parentheses, with a newline in front of the closing one, between words with
spaces between them; the text is cut into all of the words. -/
theorem tokenize_enclosed {source front back : String} {frontWords backWords : List Word}
    (h : tokenize source = .ok tokens) (written : tokens.map Token.word = words ++ [endWord])
    (opens : front.toList = (frontWords.flatMap fun word => word.lexeme.toList ++ [' ']) ++ ['('])
    (closes : back.toList = '\n' :: ')' :: backWords.flatMap fun word => ' ' :: word.lexeme.toList)
    (spelled : ∀ word ∈ frontWords ++ backWords, word.Spelled) :
    ∃ all, tokenize (front ++ source ++ back) = .ok all ∧
      all.map Token.word = frontWords ++ enclosed words ++ backWords ++ [endWord] := by
  obtain ⟨spelledFront, spelledBack⟩ := List.forall_mem_append.mp spelled
  let behind := String.ofList (backWords.flatMap fun word => ' ' :: word.lexeme.toList)
  have trails : Trails behind backWords := trails_words backWords String.toList_ofList
  have closing : Cuts (')' :: behind.toList) (TokenKind.rightParen.word :: backWords) := by
    have legible : ∀ word ∈ backWords, word.Legible := fun word mem => (spelledBack word mem).legible
    have cut := trails.prints.cuts legible (startsAmong_nil _) .nil
    have apart := trails.apart [] fun _ h => nomatch h
    rw [List.append_nil] at cut apart
    rw [List.append_nil] at cut
    have mark : TokenKind.rightParen.word.Legible := .inl rfl
    exact Cuts.word mark (apart.fits _) cut
  have inner : Cuts (source ++ back).toList (words ++ TokenKind.rightParen.word :: backWords) := by
    rw [String.toList_append, closes, ← String.toList_ofList (l := backWords.flatMap _)]
    exact Lexer.cuts_append_newline h written closing
  obtain ⟨all, cut, same⟩ := tokenize_opened opens spelledFront inner
  exact ⟨all, String.append_assoc ▸ cut, by simpa [enclosed] using same⟩

end Adql
