import Adql.Proofs.RoundTrip.Scanning

/-!
# Cutting written words

A text that is put together from written words is cut into tokens of these words.  `Laid` says how it
is put together in front of another text, and `Cuts` that a whole text is cut into words.  `Prints`
says of a piece of text that it is put together from words in front of what may follow it; pieces that
are printed one behind the other are put together one behind the other.  Texts that anything may follow
end with a space or with an opening mark; in front of optional text that starts with a space or is
missing (`Trails`), a piece ends in any case.

An integer that is too large for a literal can be written as well, but it is no token.  A text in which
one stands is not cut into tokens at all (`Laid.fails`).
-/

namespace Adql

open Adql.Text Adql.Decimal

/-! ### Single words -/

/-- A mark is scanned as a token of its kind. -/
theorem scanToken_mark {kind : TokenKind}
    (mark : kind.category = .operator ∨ kind.category = .punctuation) {rest : List Char}
    (fits : kind.Fits rest) :
    scanToken (kind.spelling.toList ++ rest) = ⟨kind.spelling.toList, rest, .ok kind⟩ := by
  cases kind with
  | keyword => simp [TokenKind.category] at mark
  | dot =>
    cases rest with
    | nil => rfl
    | cons d rest =>
      have digit : startsFraction ('.' :: d :: rest) = false := fits d rfl
      change (if ('.'.isDigit || startsFraction ('.' :: d :: rest)) = true then _ else _) = _
      rw [digit]
      rfl
  | lt | gt | bitOr =>
    cases rest with
    | nil => rfl
    | cons c rest =>
      have hc : c = ' ' ∨ c = ')' ∨ c = ',' := by simpa using fits c rfl
      obtain rfl | rfl | rfl := hc <;> rfl
  | identifier | delimitedIdentifier | integer | real | string | eof =>
    exact absurd mark (by decide)
  | _ => rfl

/-- A word that is written as the printer writes it is scanned as a token of its kind. -/
theorem Word.Spelled.scanToken {word : Word} (spelled : word.Spelled) {rest : List Char}
    (fits : word.kind.Fits rest) :
    scanToken (word.lexeme.toList ++ rest) = ⟨word.lexeme.toList, rest, .ok word.kind⟩ := by
  obtain ⟨kind, lexeme⟩ := word
  cases kind with
  | keyword keyword =>
    obtain rfl : lexeme = keyword.spelling := spelled
    obtain ⟨first, text, written, starts, continues, recognized⟩ := keyword.isWord
    have scanned := scanToken_word starts continues (StartsAmong.not_continuesWord fits)
    rw [← written, String.ofList_toList, wordKind, recognized] at scanned
    exact scanned
  | identifier =>
    obtain ⟨first, text, written, starts, continues, unreserved⟩ := spelled
    have scanned := scanToken_word starts continues (StartsAmong.not_continuesWord fits)
    rw [← written, String.ofList_toList, wordKind, unreserved] at scanned
    exact scanned
  | delimitedIdentifier =>
    obtain ⟨name, nonempty, rfl⟩ := spelled
    exact scanToken_delimited nonempty fun h => absurd (fits '"' h) (by decide)
  | integer =>
    obtain ⟨value, small, rfl⟩ := spelled
    exact scanToken_integer small fits
  | real =>
    obtain ⟨value, positive, finite, written, read⟩ := spelled
    refine scanToken_real ?_ read finite fits
    rw [written]
    exact Layout.isReal_text positive finite
  | string =>
    obtain ⟨value, rfl⟩ := spelled
    exact scanToken_string value fun h => absurd (fits '\'' h) (by decide)
  | eof => exact spelled.elim
  | _ =>
    simp only [Word.Spelled] at spelled
    subst spelled
    exact scanToken_mark (by decide) fits

/-- A word that can be read is scanned as a token of its kind. -/
theorem Word.Legible.scanToken {word : Word} (legible : word.Legible) {rest : List Char}
    (fits : word.kind.Fits rest) :
    scanToken (word.lexeme.toList ++ rest) = ⟨word.lexeme.toList, rest, .ok word.kind⟩ := by
  rcases legible with spelled | ⟨keyword, kind, recognized⟩
  · exact spelled.scanToken fits
  · obtain ⟨first, text, written, starts, continues⟩ := Keyword.isWord_of_ofWord? recognized
    rw [kind] at fits ⊢
    have scanned := scanToken_word starts continues (StartsAmong.not_continuesWord fits)
    rw [← written, String.ofList_toList, wordKind, recognized] at scanned
    exact scanned

/-- Is the word an integer that is too large for a literal?  Its text is no token. -/
def Word.Oversized (word : Word) : Prop :=
  word.kind = .integer ∧ ∃ value, maxInteger < value ∧ word.lexeme = value.repr

/-- Can the word be printed?  It can be read, or it is an integer that is too large for a literal. -/
def Word.Written (word : Word) : Prop :=
  word.Legible ∨ word.Oversized

/-- A word that can be read is no integer that is too large for a literal. -/
theorem Word.Legible.not_oversized {word : Word} (legible : word.Legible) : ¬word.Oversized := by
  rintro ⟨integer, value, large, written⟩
  rcases legible with spelled | ⟨_, keyword, _⟩
  · obtain ⟨_, lexeme⟩ := word
    obtain rfl : _ = TokenKind.integer := integer
    obtain ⟨small, bound, same⟩ := spelled
    have same := congrArg String.toList (written.symm.trans same)
    rw [Nat.toList_repr, Nat.toList_repr] at same
    have read := congrArg (readNatural? 10) same
    rw [readNatural?_toDigits, readNatural?_toDigits] at read
    obtain rfl := Option.some.inj read
    omega
  · rw [integer] at keyword
    cases keyword

/-- An integer that is too large for a literal starts with a digit. -/
theorem Word.Oversized.head {word : Word} (oversized : word.Oversized) :
    ∃ c text, word.lexeme.toList = c :: text ∧ c.isDigit = true := by
  obtain ⟨-, value, -, written⟩ := oversized
  obtain ⟨c, text, digits⟩ := List.exists_cons_of_ne_nil
    (l := word.lexeme.toList) (by rw [written, Nat.toList_repr]; exact Nat.toDigits_ne_nil)
  refine ⟨c, text, digits, ?_⟩
  have mem : c ∈ word.lexeme.toList := digits ▸ List.mem_cons_self
  rw [written, Nat.toList_repr] at mem
  exact isDigit_of_mem_toDigits mem

/-- An integer that is too large for a literal is no token. -/
theorem Word.Oversized.scanToken {word : Word} (oversized : word.Oversized) {rest : List Char}
    (apart : Apart rest) :
    scanToken (word.lexeme.toList ++ rest) = malformed word.lexeme.toList rest := by
  obtain ⟨_, value, large, written⟩ := oversized
  rw [written, scanToken_repr apart, scanNumeral,
    if_neg (by simp [Nat.not_le_of_lt large])]

/-- None of the digits and letters of ASCII, nor of the marks between them, is a blank. -/
theorem isBlank_of_le {c : Char} (low : 48 ≤ c.toNat) (high : c.toNat ≤ 122) :
    isBlank c = false := by
  refine Bool.eq_false_iff.mpr fun blank => ?_
  have outside : ∀ range ∈ blankRanges, range.2 < 48 ∨ 122 < range.1 := by decide
  obtain ⟨range, mem, above, below⟩ := RangeTable.exists_range_of_covers blank
  have := outside range mem
  omega

/-- No digit is a blank. -/
theorem isBlank_of_isDigit {c : Char} (h : c.isDigit = true) : isBlank c = false := by
  have digit : 48 ≤ c.toNat ∧ c.toNat ≤ 57 := by
    simpa [Char.isDigit, UInt32.le_iff_toNat_le] using h
  exact isBlank_of_le digit.1 (by omega)

/-- No hexadecimal digit is a blank. -/
theorem isBlank_of_isHexDigit {c : Char} (h : isHexDigit c = true) : isBlank c = false := by
  simp only [isHexDigit, Bool.or_eq_true, Bool.and_eq_true, decide_eq_true_eq] at h
  obtain (digit | lower) | upper := h
  · exact isBlank_of_isDigit digit
  · exact isBlank_of_le (Nat.le_trans (by decide) lower.1) (Nat.le_trans lower.2 (by decide))
  · exact isBlank_of_le (Nat.le_trans (by decide) upper.1) (Nat.le_trans upper.2 (by decide))

/-- A text that starts neither with a blank nor with a comment starts with no gap. -/
theorem skipGap_cons {c : Char} {text : List Char} (blank : isBlank c = false)
    (line : c = '-' → text.head? ≠ some '-') (block : c = '/' → text.head? ≠ some '*')
    (place : Position) :
    skipGap .between place (c :: text) = ⟨place, c :: text, none⟩ := by
  unfold skipGap
  split
  · contradiction
  · next same =>
    obtain ⟨rfl, rfl⟩ := List.cons.inj same
    exact absurd rfl (line rfl)
  · next same =>
    obtain ⟨rfl, rfl⟩ := List.cons.inj same
    exact absurd rfl (block rfl)
  · next same =>
    obtain ⟨rfl, rfl⟩ := List.cons.inj same
    simp [blank]
  all_goals contradiction

/-- A written word starts with a character that is no blank and starts no comment, unless it is
the mark for a difference or a quotient. -/
theorem Word.Spelled.head {word : Word} (spelled : word.Spelled) :
    ∃ c text, word.lexeme.toList = c :: text ∧ isBlank c = false ∧
      (c = '-' → word.kind = .minus ∧ text = []) ∧ (c = '/' → word.kind = .slash ∧ text = []) := by
  have letter : ∀ c, startsWord c = true → c ≠ '-' ∧ c ≠ '/' := fun c starts =>
    ⟨ne_of_startsWord starts (by decide), ne_of_startsWord starts (by decide)⟩
  have digit : ∀ c : Char, c.isDigit = true → c ≠ '-' ∧ c ≠ '/' := by
    intro c h
    constructor <;> rintro rfl <;> exact absurd h (by decide)
  obtain ⟨kind, lexeme⟩ := word
  cases kind with
  | keyword keyword =>
    obtain rfl : lexeme = keyword.spelling := spelled
    obtain ⟨first, text, written, starts, _⟩ := keyword.isWord
    obtain ⟨minus, slash⟩ := letter first starts
    exact ⟨first, text, written, isBlank_of_startsWord starts, fun h => absurd h minus,
      fun h => absurd h slash⟩
  | identifier =>
    obtain ⟨first, text, written, starts, _⟩ := spelled
    obtain ⟨minus, slash⟩ := letter first starts
    exact ⟨first, text, written, isBlank_of_startsWord starts, fun h => absurd h minus,
      fun h => absurd h slash⟩
  | delimitedIdentifier =>
    obtain ⟨name, _, rfl⟩ := spelled
    exact ⟨'"', double '"' name.toList ++ ['"'], by simp [quoted], by decide, by simp, by simp⟩
  | string =>
    obtain ⟨value, rfl⟩ := spelled
    exact ⟨'\'', double '\'' value.toList ++ ['\''], by simp [quoted], by decide, by simp,
      by simp⟩
  | integer =>
    obtain ⟨value, _, rfl⟩ := spelled
    cases written : value.repr.toList with
    | nil => exact absurd (Nat.toList_repr.symm.trans written) Nat.toDigits_ne_nil
    | cons first text =>
      have mem : first ∈ value.repr.toList := written ▸ List.mem_cons_self
      rw [Nat.toList_repr] at mem
      have number := isDigit_of_mem_toDigits mem
      obtain ⟨minus, slash⟩ := digit first number
      exact ⟨first, text, rfl, isBlank_of_isDigit number, fun h => absurd h minus,
        fun h => absurd h slash⟩
  | real =>
    obtain ⟨value, positive, finite, written, _⟩ := spelled
    obtain ⟨first, text, digits, number⟩ := (Layout.isReal_text positive finite).exists_digit
    obtain ⟨minus, slash⟩ := digit first number
    exact ⟨first, text, written ▸ digits, isBlank_of_isDigit number, fun h => absurd h minus,
      fun h => absurd h slash⟩
  | eof => exact spelled.elim
  | _ =>
    simp only [Word.Spelled] at spelled
    subst spelled
    exact ⟨_, _, rfl, by decide, by decide, by decide⟩

/-- There is no gap in front of a word that can be read. -/
theorem Word.Legible.skipGap {word : Word} (legible : word.Legible) {rest : List Char}
    (fits : word.kind.Fits rest) (place : Position) :
    skipGap .between place (word.lexeme.toList ++ rest) =
      ⟨place, word.lexeme.toList ++ rest, none⟩ := by
  rcases legible with spelled | ⟨keyword, -, recognized⟩
  · obtain ⟨c, text, written, blank, minus, slash⟩ := spelled.head
    rw [written]
    refine skipGap_cons blank (fun h => ?_) (fun h => ?_) place
    · obtain ⟨kind, rfl⟩ := minus h
      rw [kind] at fits
      exact fits
    · obtain ⟨kind, rfl⟩ := slash h
      rw [kind] at fits
      exact fun h => absurd (fits '*' h) (by decide)
  · obtain ⟨first, text, written, starts, -⟩ := Keyword.isWord_of_ofWord? recognized
    rw [written]
    exact skipGap_cons (isBlank_of_startsWord starts)
      (fun h => absurd h (ne_of_startsWord starts (by decide)))
      (fun h => absurd h (ne_of_startsWord starts (by decide))) place

/-- Is the word, in front of the text, the token that is read first? -/
structure Word.CutOff (word : Word) (rest : List Char) : Prop where
  /-- The word is not the end marker. -/
  more : word.kind ≠ .eof
  /-- There is no gap in front of the word. -/
  noGap : ∀ place, skipGap .between place (word.lexeme.toList ++ rest) =
    ⟨place, word.lexeme.toList ++ rest, none⟩
  /-- The token ends with the word. -/
  scanned : scanToken (word.lexeme.toList ++ rest) =
    ⟨word.lexeme.toList, rest, .ok word.kind⟩

/-- A word that can be read is cut off in front of what fits. -/
theorem Word.Legible.cutOff {word : Word} (legible : word.Legible) {rest : List Char}
    (fits : word.kind.Fits rest) : word.CutOff rest where
  more h := by simp [Word.Legible, Word.Spelled, h] at legible
  noGap := legible.skipGap fits
  scanned := legible.scanToken fits

/-- A word that is cut off is the next token, and the lexer goes on behind it. -/
theorem Word.CutOff.next {word : Word} {rest : List Char} (h : word.CutOff rest) (place : Position) :
    (Lexer.mk (word.lexeme.toList ++ rest) place).next =
      (.ok ⟨word.kind, word.lexeme, ⟨place.offset, (place.advance word.lexeme.toList).offset⟩,
        place.line, place.column⟩, ⟨rest, place.advance word.lexeme.toList⟩) := by
  simp [Lexer.next, h.noGap, h.scanned, Lexeme.answer]

/-! ### Texts -/

/-- Is the text, wherever it stands, cut into tokens of the words and the end marker? -/
def Cuts (text : List Char) (words : List Word) : Prop :=
  ∀ place, ∃ tokens, (Lexer.mk text place).tokens = .ok tokens ∧
    tokens.map Token.word = words ++ [endWord]

/-- The tokens that are left are those of the next answer. -/
theorem Lexer.tokens_eq (lexer : Lexer) :
    lexer.tokens =
      match lexer.next with
      | (.error error, _) => .error error
      | (.ok token, following) =>
        if token.isEnd then .ok [token] else following.tokens.map (token :: ·) := by
  rw [Lexer.tokens]
  split
  · next h => rw [h]
  · next h =>
    rw [h]
    rfl

/-- The tokens that are left depend on the next answer alone. -/
theorem Lexer.tokens_congr {lexer other : Lexer} (h : lexer.next = other.next) :
    lexer.tokens = other.tokens := by
  rw [lexer.tokens_eq, other.tokens_eq, h]

/-- A token that is read is the first of the tokens that are left. -/
theorem Lexer.tokens_of_next {lexer following : Lexer} {token : Token}
    (h : lexer.next = (.ok token, following)) (more : token.isEnd = false) :
    lexer.tokens = following.tokens.map (token :: ·) := by
  rw [lexer.tokens_eq, h]
  simp [more]

/-- In front of a space, the tokens are those behind it. -/
theorem Lexer.tokens_space (text : List Char) (place : Position) :
    (Lexer.mk (' ' :: text) place).tokens = (Lexer.mk text (place.after ' ')).tokens :=
  have same : (Lexer.mk (' ' :: text) place).next = (Lexer.mk text (place.after ' ')).next := rfl
  Lexer.tokens_congr same

namespace Cuts

variable {text rest : List Char} {words : List Word}

/-- The empty text is cut into no words. -/
theorem nil : Cuts [] [] := by
  intro place
  refine ⟨[⟨.eof, "", ⟨place.offset, place.offset⟩, place.line, place.column⟩], ?_, rfl⟩
  rw [Lexer.tokens]
  rfl

/-- A space in front changes nothing. -/
theorem space (h : Cuts text words) : Cuts (' ' :: text) words := by
  intro place
  rw [Lexer.tokens_space]
  exact h _

/-- A word that is cut off in front of a text is the first of the words. -/
theorem cutOff {word : Word} (cutOff : word.CutOff rest) (h : Cuts rest words) :
    Cuts (word.lexeme.toList ++ rest) (word :: words) := by
  intro place
  obtain ⟨tokens, cut, same⟩ := h (place.advance word.lexeme.toList)
  rw [Lexer.tokens_of_next (cutOff.next place) (by simpa [Token.isEnd] using cutOff.more), cut]
  exact ⟨_, rfl, congrArg (word :: ·) same⟩

/-- A word in front that can be read is cut off. -/
theorem word {word : Word} (legible : word.Legible) (fits : word.kind.Fits rest)
    (h : Cuts rest words) : Cuts (word.lexeme.toList ++ rest) (word :: words) :=
  h.cutOff (legible.cutOff fits)

end Cuts

/-! ### Written words in front of a text -/

/-- A text that starts with an integer that is too large for a literal is not cut into tokens. -/
theorem Word.Oversized.tokens {word : Word} (oversized : word.Oversized) {rest : List Char}
    (fits : word.kind.Fits rest) (place : Position) :
    ∃ error, (Lexer.mk (word.lexeme.toList ++ rest) place).tokens = .error error := by
  have apart : Apart rest := by rwa [oversized.1] at fits
  have scanned := oversized.scanToken apart
  obtain ⟨c, text, digits, digit⟩ := oversized.head
  have noGap : skipGap .between place (word.lexeme.toList ++ rest) =
      ⟨place, word.lexeme.toList ++ rest, none⟩ := by
    rw [digits]
    refine skipGap_cons (isBlank_of_isDigit digit) ?_ ?_ place <;> rintro rfl <;>
      exact absurd digit (by decide)
  obtain ⟨error, answer⟩ : ∃ error, (Lexer.mk (word.lexeme.toList ++ rest) place).next.1 =
      .error error := by
    simp [Lexer.next, noGap, scanned, malformed, Lexeme.answer]
  refine ⟨error, ?_⟩
  rw [Lexer.tokens_eq]
  generalize (Lexer.mk (word.lexeme.toList ++ rest) place).next = next at answer
  obtain ⟨_, following⟩ := next
  cases answer
  rfl

/-- In front of a text, a text is put together from written words.  There may be a space in front of a
word, and what is behind a word ends it. -/
inductive Laid (rest : List Char) : List Char → List Word → Prop
  | rest : Laid rest rest []
  | space {text : List Char} {words : List Word} : Laid rest text words →
      Laid rest (' ' :: text) words
  | word {word : Word} {text : List Char} {words : List Word} : word.Written →
      word.kind.Fits text → Laid rest text words →
      Laid rest (word.lexeme.toList ++ text) (word :: words)

namespace Laid

variable {rest text front : List Char} {more words : List Word}

/-- Texts are put together one in front of the other. -/
theorem trans (h : Laid text front words) (h' : Laid rest text more) :
    Laid rest front (words ++ more) := by
  induction h with
  | rest => exact h'
  | space _ ih => exact ih.space
  | word written fits _ ih => exact .word written fits ih

/-- If the text behind is cut into its words, so is the whole text, unless a word is too large. -/
theorem cuts (h : Laid rest text words) (cut : Cuts rest more)
    (sound : ∀ word ∈ words, ¬word.Oversized) : Cuts text (words ++ more) := by
  induction h with
  | rest => exact cut
  | space _ ih => exact (ih sound).space
  | word written fits _ ih =>
    obtain ⟨small, others⟩ := List.forall_mem_cons.mp sound
    exact .word (written.resolve_right small) fits (ih others)

/-- If a word is too large, a text that starts with the words is not cut into tokens. -/
theorem fails (h : Laid rest text words) (oversized : ∃ word ∈ words, word.Oversized)
    (place : Position) : ∃ error, (Lexer.mk text place).tokens = .error error := by
  induction h generalizing place with
  | rest =>
    obtain ⟨word, mem, -⟩ := oversized
    cases mem
  | space _ ih =>
    rw [Lexer.tokens_space]
    exact ih oversized _
  | @word word text words written fits _ ih =>
    rcases written with legible | large
    · have others : ∃ word ∈ words, word.Oversized := by
        obtain ⟨other, mem, large⟩ := oversized
        rcases List.mem_cons.mp mem with rfl | mem
        · exact absurd large legible.not_oversized
        · exact ⟨other, mem, large⟩
      have cutOff := legible.cutOff fits
      obtain ⟨error, failed⟩ := ih others (place.advance word.lexeme.toList)
      refine ⟨error, ?_⟩
      rw [Lexer.tokens_of_next (cutOff.next place) (by simpa [Token.isEnd] using cutOff.more), failed]
      rfl
    · exact large.tokens fits place

end Laid

/-! ### Pieces of text -/

/-- In front of a text that may follow, is the piece of text put together from the words, if these can
be printed? -/
def Prints (follows : List Char → Prop) (text : String) (words : List Word) : Prop :=
  (∀ word ∈ words, word.Written) → ∀ rest, follows rest → Laid rest (text.toList ++ rest) words

/-- What anything may follow. -/
abbrev Leads : String → List Word → Prop :=
  Prints fun _ => True

/-- What is printed behind a space, or is not there. -/
structure Trails (text : String) (words : List Word) : Prop where
  /-- The text is put together from the words. -/
  prints : Prints Apart text words
  /-- Every word ends in front of the text. -/
  apart : ∀ rest, Apart rest → Apart (text.toList ++ rest)

namespace Prints

variable {follows ends : List Char → Prop} {text next : String} {words others : List Word}

/-- A word is printed in front of what fits. -/
theorem word (word : Word) : Prints word.kind.Fits word.lexeme [word] :=
  fun written _ fits => .word (written word List.mem_cons_self) fits .rest

/-- Less may follow. -/
theorem mono (h : Prints follows text words) (sub : ∀ rest, ends rest → follows rest) :
    Prints ends text words :=
  fun written rest fits => h written rest (sub rest fits)

/-- Pieces of text that fit together are printed one behind the other. -/
theorem append (h : Prints follows text words) (h' : Prints ends next others)
    (fits : ∀ rest, ends rest → follows (next.toList ++ rest)) :
    Prints ends (text ++ next) (words ++ others) := by
  intro written rest allowed
  obtain ⟨first, second⟩ := List.forall_mem_append.mp written
  rw [String.toList_append, List.append_assoc]
  exact (h first _ (fits rest allowed)).trans (h' second _ allowed)

/-- No text is printed as no words. -/
theorem empty : Prints follows "" [] :=
  fun _ _ _ => .rest

/-- A word is printed in front of whatever ends every word. -/
theorem closed (word : Word) : Prints Apart word.lexeme [word] :=
  (Prints.word word).mono fun _ apart => apart.fits word.kind

/-- A text stands behind what anything may follow. -/
theorem behind (h : Prints follows next others) (front : Leads text words) :
    Prints follows (text ++ next) (words ++ others) :=
  front.append h fun _ _ => trivial

/-- A text stands in front of what is printed behind a space. -/
theorem before (h : Prints Apart text words) (back : Trails next others) :
    Prints Apart (text ++ next) (words ++ others) :=
  h.append back.prints back.apart

/-- In front of a text that may follow and is cut into its words, a piece of text is cut into its
words, if these can be read. -/
theorem cuts (h : Prints follows text words) (legible : ∀ word ∈ words, word.Legible)
    {rest : List Char} {more : List Word} (allowed : follows rest) (cut : Cuts rest more) :
    Cuts (text.toList ++ rest) (words ++ more) := by
  exact (h (fun word mem => .inl (legible word mem)) rest allowed).cuts cut
    fun word mem => (legible word mem).not_oversized

/-- A whole text is cut into tokens of its words and the end marker, if the words can be read. -/
theorem tokenize_legible (h : Prints Apart text words) (legible : ∀ word ∈ words, word.Legible) :
    ∃ tokens, Adql.tokenize text = .ok tokens ∧ tokens.map Token.word = words ++ [endWord] := by
  have cut := h.cuts legible (startsAmong_nil _) .nil
  rw [List.append_nil, List.append_nil] at cut
  exact cut _

/-- A whole text is not cut into tokens if one of its words is too large. -/
theorem tokenize_oversized (h : Prints Apart text words) (written : ∀ word ∈ words, word.Written)
    (oversized : ∃ word ∈ words, word.Oversized) : ∃ error, Adql.tokenize text = .error error := by
  have laid := h written [] (startsAmong_nil _)
  rw [List.append_nil] at laid
  exact laid.fails oversized _

/-- A whole text is cut into tokens of its words and the end marker, if the words can be written. -/
theorem tokenize (h : Prints Apart text words) (spelled : ∀ word ∈ words, word.Spelled) :
    ∃ tokens, tokenize text = .ok tokens ∧ tokens.map Token.word = words ++ [endWord] :=
  h.tokenize_legible fun word mem => (spelled word mem).legible

/-- A text is put in parentheses. -/
theorem parenthesized (h : Prints Apart text words) :
    Prints Apart (parenthesized text) (enclosed words) := by
  have front : Leads "(" [TokenKind.leftParen.word] := Prints.word TokenKind.leftParen.word
  have back : Trails ")" [TokenKind.rightParen.word] :=
    ⟨Prints.closed TokenKind.rightParen.word, fun _ _ => startsAmong_cons _ (by decide)⟩
  rw [Adql.parenthesized, String.append_assoc]
  exact (h.before back).behind front

/-- A text is put in parentheses if need be. -/
theorem parenthesizedIf (needed : Bool) (h : Prints Apart text words) :
    Prints Apart (parenthesizedIf needed text) (enclosedIf (true && needed) words) := by
  cases needed with
  | false => exact h
  | true => exact h.parenthesized

end Prints

/-- A space is printed as no word. -/
theorem leads_space : Leads " " [] :=
  fun _ _ _ => .space .rest

/-- Behind a space, a text trails. -/
theorem Prints.trails {text : String} {words : List Word} (h : Prints Apart text words) :
    Trails (" " ++ text) words where
  prints := h.behind leads_space
  apart rest _ := by
    rw [String.toList_append]
    exact startsAmong_cons _ (by decide)

namespace Trails

variable {text next : String} {words others : List Word}

/-- What is not there trails. -/
theorem empty : Trails "" [] :=
  ⟨.empty, fun _ apart => apart⟩

/-- One text trails behind another. -/
theorem append (h : Trails text words) (h' : Trails next others) :
    Trails (text ++ next) (words ++ others) where
  prints := h.prints.before h'
  apart rest apart := by
    rw [String.toList_append, List.append_assoc]
    exact h.apart _ (h'.apart rest apart)

end Trails

/-! ### Words with spaces between them -/

/-- Words with a space behind each of them. -/
theorem leads_words {text : String} (words : List Word)
    (written : text.toList = words.flatMap fun word => word.lexeme.toList ++ [' ']) :
    Leads text words := by
  intro legible rest _
  rw [written]
  clear written
  induction words with
  | nil => exact .rest
  | cons word words ih =>
    obtain ⟨first, others⟩ := List.forall_mem_cons.mp legible
    have apart : Apart (' ' :: (words.flatMap fun word => word.lexeme.toList ++ [' ']) ++ rest) :=
      startsAmong_cons _ (by decide)
    have laid := Laid.word first (apart.fits _) (ih others).space
    simpa using laid

/-- Words with a space in front of each of them. -/
theorem trails_words {text : String} (words : List Word)
    (written : text.toList = words.flatMap fun word => ' ' :: word.lexeme.toList) :
    Trails text words := by
  refine ⟨fun legible rest apart => ?_, fun rest apart => ?_⟩
  · rw [written]
    clear written
    induction words with
    | nil => exact .rest
    | cons word words ih =>
      obtain ⟨first, others⟩ := List.forall_mem_cons.mp legible
      have starts : Apart ((words.flatMap fun word => ' ' :: word.lexeme.toList) ++ rest) := by
        cases words with
        | nil => exact apart
        | cons => exact startsAmong_cons _ (by decide)
      have laid := (Laid.word first (starts.fits _) (ih others)).space
      simpa using laid
  · rw [written]
    cases words with
    | nil => exact apart
    | cons => exact startsAmong_cons _ (by decide)

/-- Reserved words with a space behind each of them. -/
theorem leads_keywords {text : String} (keywords : List Keyword)
    (spelled : text.toList = keywords.flatMap fun keyword => keyword.spelling.toList ++ [' ']) :
    Leads text (keywords.map Keyword.word) :=
  leads_words _ (by rw [spelled, List.flatMap_map]; rfl)

/-- Reserved words with a space in front of each of them. -/
theorem trails_keywords {text : String} (keywords : List Keyword)
    (spelled : text.toList = keywords.flatMap fun keyword => ' ' :: keyword.spelling.toList) :
    Trails text (keywords.map Keyword.word) :=
  trails_words _ (by rw [spelled, List.flatMap_map]; rfl)

end Adql
