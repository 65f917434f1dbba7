import Adql.Proofs.RoundTrip.Cutting

/-!
# Words of source texts

The words of a text that is cut into tokens are sound (`tokenize_words`): what a name or a literal
of the text stands for can be written.  Of the real numbers in the text this is assumed: that their
shortest decimal text is read as the same number (`Token.Rereads`).
-/

namespace Adql

open Adql.Text Adql.Decimal

/-- If the token is a real number, the text that is printed for it is read as the same number. -/
def Token.Rereads (token : Token) : Prop :=
  ∀ value, token.real? = some value → readReal? (Layout.query.text value) = some value

/-- Whether a token is read again can be computed. -/
instance (token : Token) : Decidable token.Rereads :=
  decidable_of_iff (∀ value ∈ token.real?, readReal? (Layout.query.text value) = some value) Iff.rfl

/-! ### Quoted texts -/

/-- The rest of a quoted text is a text with its quotes doubled, and the closing quote. -/
theorem eq_double_of_closeQuote {quote : Char} {text body rest : List Char}
    (h : closeQuote quote text = some (body, rest)) :
    ∃ inner, body = double quote inner ++ [quote] := by
  fun_induction closeQuote quote text generalizing body rest with
  | case1 => simp at h
  | case2 =>
    obtain ⟨rfl, rfl⟩ : [quote] = body ∧ [] = rest := by simpa using h
    exact ⟨[], rfl⟩
  | case3 => simp at h
  | case4 rest' ih =>
    obtain ⟨⟨inner, left⟩, hinner, hpair⟩ := Option.map_eq_some_iff.1 h
    obtain ⟨text, rfl⟩ := ih hinner
    simp only [Prod.mk.injEq] at hpair
    exact ⟨quote :: text, by simp [← hpair.1, double]⟩
  | case5 d rest' =>
    obtain ⟨rfl, rfl⟩ : [quote] = body ∧ d :: rest' = rest := by simpa using h
    exact ⟨[], rfl⟩
  | case6 c d rest' other ih =>
    obtain ⟨⟨inner, left⟩, hinner, hpair⟩ := Option.map_eq_some_iff.1 h
    obtain ⟨text, rfl⟩ := ih hinner
    simp only [Prod.mk.injEq] at hpair
    exact ⟨c :: text, by simp [← hpair.1, double, other]⟩

/-- A quoted text that was scanned is the quoted form of some text. -/
theorem exists_quoted_of_closeQuote {quote : Char} {text body rest : List Char}
    (h : closeQuote quote text = some (body, rest)) :
    ∃ value, String.ofList (quote :: body) = quoted quote value ∧ (body = [quote] ↔ value = "") := by
  obtain ⟨inner, rfl⟩ := eq_double_of_closeQuote h
  refine ⟨String.ofList inner, by simp [quoted], ?_⟩
  constructor
  · intro closed
    cases inner with
    | nil => rfl
    | cons c rest =>
      have short := congrArg List.length closed
      by_cases same : c = quote <;> simp [double, same] at short
  · intro empty
    have none : inner = [] := by simpa using congrArg String.toList empty
    simp [none]

/-! ### Numbers -/

/-- The sign bit of the nearest double does not stand. -/
theorem isNegative_nearest (coefficient : Nat) (exponent : Int) :
    (nearest coefficient exponent).isNegative = false := by
  have small (bits : Nat) (bound : bits ≤ Double.infinity.bits.toNat) :
      Double.isNegative ⟨bits.toUInt64⟩ = false := by
    have infinite : Double.infinity.bits.toNat = 9218868437227405312 := rfl
    have sign : Double.signBit.toNat = 9223372036854775808 := rfl
    have same : bits.toUInt64.toNat = bits := Nat.mod_eq_of_lt (by omega)
    refine decide_eq_false fun negative => ?_
    rw [UInt64.le_iff_toNat_le, sign, same] at negative
    omega
  unfold nearest
  split
  · rfl
  · split
    · rfl
    · split
      · rfl
      · exact small _ (Nat.min_le_left ..)

/-- A number that starts with a digit or a point is not negative. -/
theorem isNegative_of_readReal? {text : String} {c : Char} {rest : List Char} {value : Double}
    (split : text.toList = c :: rest) (start : c.isDigit = true ∨ c = '.')
    (h : readReal? text = some value) : value.isNegative = false := by
  rw [readReal?_eq split start, readMagnitude?] at h
  simp only [Option.bind_eq_bind, Option.bind_eq_some_iff, Option.pure_def, Option.some.injEq] at h
  obtain ⟨_, _, _, _, rfl⟩ := h
  exact isNegative_nearest _ _

/-- An integer without a minus sign is not negative. -/
theorem nonneg_of_readInteger? {base : Nat} {text : List Char} {value : Int}
    (unsigned : text.head? ≠ some '-') (h : readInteger? base text = some value) : 0 ≤ value := by
  have positive : (splitSign text).1 = false := by
    unfold splitSign
    split
    · exact absurd rfl unsigned
    · rfl
    · rfl
  rw [readInteger?] at h
  generalize splitSign text = parts at h positive
  obtain ⟨negative, digits⟩ := parts
  subst positive
  obtain ⟨n, read, rfl⟩ := Option.map_eq_some_iff.mp h
  obtain ⟨natural, _, same⟩ := Option.bind_eq_some_iff.mp read
  obtain rfl : (natural : Int) = n := Option.some.inj same
  exact Int.natCast_nonneg natural

/-- The value of an integer token without a minus sign is not negative. -/
theorem Token.nonneg_of_integer? {token : Token} {value : Int64}
    (unsigned : ∀ c ∈ token.lexeme.toList, c ≠ '-') (h : token.integer? = some value) :
    0 ≤ value.toInt := by
  unfold integer? at h
  obtain ⟨whole, read, bounded⟩ := Option.bind_eq_some_iff.mp h
  have positive : 0 ≤ whole := by
    split at read
    · next digits split =>
      refine nonneg_of_readInteger? (fun first => ?_) read
      exact unsigned '-' (by rw [split]; simp [List.mem_of_mem_head? first]) rfl
    · next digits split =>
      refine nonneg_of_readInteger? (fun first => ?_) read
      exact unsigned '-' (by rw [split]; simp [List.mem_of_mem_head? first]) rfl
    · refine nonneg_of_readInteger? (fun first => ?_) read
      exact unsigned '-' (List.mem_of_mem_head? first) rfl
  unfold int64? at bounded
  split at bounded
  · next range =>
    cases bounded
    rw [Int64.toInt_ofInt_of_le range.1 (by have := range.2; rw [Int64.toInt_maxValue] at this; omega)]
    exact positive
  · cases bounded

/-! ### Single words -/

/-- A word that is neither a name nor a literal is sound. -/
theorem Word.sound_of_none {word : Word} (more : word.kind ≠ .eof)
    (name : word.token.identifier? = none) (literal : word.token.literal? = none) : word.Sound where
  kind_ne := more
  name _ h := by rw [name] at h; cases h
  literal _ h := by rw [literal] at h; cases h

/-- A reserved word is sound, however it is written. -/
theorem Word.sound_keyword (keyword : Keyword) (lexeme : String) :
    Word.Sound ⟨.keyword keyword, lexeme⟩ where
  kind_ne := nofun
  name _ h := by cases h
  literal value h := by
    cases keyword with
    | TRUE => cases h; exact ⟨rfl, rfl⟩
    | FALSE => cases h; exact ⟨rfl, rfl⟩
    | NULL => cases h; exact ⟨rfl, rfl⟩
    | _ => cases h

/-- A word that is written as the printer writes words is sound. -/
theorem Word.Spelled.sound {word : Word} (spelled : word.Spelled) : word.Sound := by
  have more : word.kind ≠ .eof := by
    intro ended
    obtain ⟨kind, lexeme⟩ := word
    cases ended
    exact spelled
  obtain ⟨kind, lexeme⟩ := word
  cases kind with
  | keyword keyword => exact sound_keyword keyword lexeme
  | identifier =>
    obtain ⟨_, _, _, _, _, unreserved⟩ := id spelled
    refine ⟨more, fun name h => ?_, fun _ h => by cases h⟩
    cases h
    simp only [Identifier.word, Identifier.regular, Word.token, Bool.false_eq_true, ↓reduceIte,
      show Keyword.ofWord? lexeme = none from unreserved]
    exact ⟨spelled, rfl⟩
  | delimitedIdentifier =>
    obtain ⟨value, nonempty, rfl⟩ := spelled
    have named : (Word.mk .delimitedIdentifier (quoted '"' value)).token.identifier? =
        some (.delimited value) := by simp [Token.identifier?, Word.token]
    refine ⟨more, fun name h => ?_, fun _ h => by cases h⟩
    obtain rfl := Option.some.inj (named.symm.trans h)
    exact ⟨⟨value, nonempty, rfl⟩, by simp [Identifier.delimited, Identifier.word, Identifier.text,
      Token.identifier?, Word.token]⟩
  | integer =>
    obtain ⟨value, bound, rfl⟩ := spelled
    have read : (Int64.ofInt value).toInt = value := by
      simp only [maxInteger] at bound
      exact Int64.toInt_ofInt_of_le (by omega) (by omega)
    have literal : (countWord value).token.literal? = some (.integer (Int64.ofInt value)) := by
      have again := @integer?_countWord (Int64.ofInt value) (by omega)
      rw [read, Int.toNat_natCast] at again
      exact congrArg (Option.map Literal.integer) again
    refine ⟨more, fun _ h => (by cases h), fun found h => ?_⟩
    obtain rfl : _ = found := Option.some.inj (literal.symm.trans h)
    exact Literal.integer_sound (by omega)
  | real =>
    obtain ⟨value, positive, finite, written, again⟩ := id spelled
    have literal : (Word.mk .real lexeme).token.literal? = some (.real value) := by
      simp only [Token.literal?, Word.token, Token.real?]
      rw [show readReal? lexeme = some value from again]
      simp [finite]
    refine ⟨more, fun _ h => (by cases h), fun found h => ?_⟩
    obtain rfl : _ = found := Option.some.inj (literal.symm.trans h)
    obtain rfl : lexeme = Layout.query.text value := written
    exact ⟨spelled, literal⟩
  | string =>
    obtain ⟨value, rfl⟩ := spelled
    refine ⟨more, fun _ h => (by cases h), fun literal h => ?_⟩
    cases h
    exact ⟨⟨_, rfl⟩, by simp [Word.token, Literal.word, Token.literal?]⟩
  | eof => exact absurd spelled id
  | _ => exact sound_of_none more rfl rfl

/-- If the lexeme is a token, its word is sound, provided that a real number is read again. -/
def Lexeme.Sound (lexeme : Lexeme) : Prop :=
  ∀ kind, lexeme.outcome = .ok kind →
    (Word.mk kind (String.ofList lexeme.used)).token.Rereads →
      Word.Sound ⟨kind, String.ofList lexeme.used⟩

/-- A word that was scanned is sound. -/
theorem sound_scanWord {c : Char} {rest : List Char} (starts : startsWord c = true) :
    (scanWord (c :: rest)).Sound := by
  intro kind h _
  have used : (scanWord (c :: rest)).used = c :: rest.takeWhile continuesWord := by
    simp [scanWord, continuesWord_of_startsWord starts]
  have found : kind = wordKind (String.ofList (scanWord (c :: rest)).used) :=
    (Except.ok.inj h).symm
  rw [used] at found ⊢
  unfold wordKind at found
  split at found
  · subst found
    exact Word.sound_keyword _ _
  · next unreserved =>
    subst found
    have isName : IsName (String.ofList (c :: rest.takeWhile continuesWord)) :=
      ⟨c, _, String.toList_ofList, starts, List.all_takeWhile, unreserved⟩
    exact Word.Spelled.sound isName

/-- A string literal that was scanned is sound. -/
theorem sound_scanString (rest : List Char) : (scanString rest).Sound := by
  unfold scanString
  split
  · next body left closed =>
    rintro _ ⟨⟩ _
    obtain ⟨value, written, _⟩ := exists_quoted_of_closeQuote closed
    exact Word.Spelled.sound ⟨value, written⟩
  · exact nofun

/-- A delimited identifier that was scanned is sound. -/
theorem sound_scanDelimited (rest : List Char) : (scanDelimited rest).Sound := by
  unfold scanDelimited
  split
  · next body left closed =>
    obtain ⟨value, written, empty⟩ := exists_quoted_of_closeQuote closed
    intro kind h _
    split at h
    · cases h
    · next nonempty =>
      cases h
      exact Word.Spelled.sound ⟨value, fun h => nonempty (empty.mpr h), written⟩
  · exact nofun

/-- A numeral that was scanned has the kind and the characters that were seen. -/
theorem scanNumeral_ok {used rest : List Char} {hasValue : Bool} {kind kind' : TokenKind}
    (h : (scanNumeral used rest hasValue kind).outcome = .ok kind') :
    kind' = kind ∧ (scanNumeral used rest hasValue kind).used = used := by
  unfold scanNumeral at h ⊢
  split at h
  · next accepted =>
    rw [if_pos accepted]
    exact ⟨(Except.ok.inj h).symm, rfl⟩
  · cases h

/-- A decimal numeral that was scanned is an integer of digits alone, or a real number. -/
theorem scanDecimal_ok {text : List Char} {kind : TokenKind}
    (h : (scanDecimal text).outcome = .ok kind) :
    (kind = .integer ∧ ∀ c ∈ (scanDecimal text).used, c ≠ '-') ∨ kind = .real := by
  unfold scanDecimal at h ⊢
  simp only at h ⊢
  split at h
  · split at h
    · next fraction =>
      obtain ⟨rfl, same⟩ := scanNumeral_ok h
      refine .inl ⟨rfl, fun c hc => ?_⟩
      rw [if_pos ‹_›, if_pos fraction, same, List.isEmpty_iff.mp fraction, List.append_nil] at hc
      rintro rfl
      exact absurd (List.all_eq_true.mp List.all_takeWhile _ hc) (by decide)
    · exact .inr (scanNumeral_ok h).1
  · exact .inr (scanNumeral_ok h).1

/-- A numeral that was scanned is an integer without a sign, or a real number. -/
theorem scanNumber_ok {text : List Char} {kind : TokenKind}
    (h : (scanNumber text).outcome = .ok kind) :
    (kind = .integer ∧ ∀ c ∈ (scanNumber text).used, c ≠ '-') ∨ kind = .real := by
  have hexadecimal (mark rest : List Char) (plain : ∀ c ∈ mark, c ≠ '-')
      (h : (scanHexadecimal mark rest).outcome = .ok kind) :
      kind = .integer ∧ ∀ c ∈ (scanHexadecimal mark rest).used, c ≠ '-' := by
    obtain ⟨rfl, same⟩ := scanNumeral_ok h
    refine ⟨rfl, fun c hc => ?_⟩
    rw [scanHexadecimal, same] at hc
    obtain hc | hc := List.mem_append.mp hc
    · exact plain c hc
    · rintro rfl
      exact absurd (List.all_eq_true.mp List.all_takeWhile _ hc) (by decide)
  unfold scanNumber at h ⊢
  split at h
  · exact .inl (hexadecimal _ _ (by simp) h)
  · exact .inl (hexadecimal _ _ (by simp) h)
  · exact scanDecimal_ok h

/-- A numeral starts with a digit or a point. -/
theorem scanNumber_used_head {c : Char} {rest : List Char}
    (start : (c.isDigit || startsFraction (c :: rest)) = true) :
    ∃ tail, (scanNumber (c :: rest)).used = c :: tail ∧ (c.isDigit = true ∨ c = '.') := by
  have nonempty := scanNumber_used_ne_nil start
  have whole := scanNumber_append (c :: rest)
  cases used : (scanNumber (c :: rest)).used with
  | nil => exact absurd used nonempty
  | cons first tail =>
    rw [used] at whole
    obtain rfl : first = c := (List.cons.inj whole).1
    refine ⟨tail, rfl, ?_⟩
    rcases Bool.or_eq_true _ _ ▸ start with digit | fraction
    · exact .inl digit
    · refine .inr (Decidable.byContradiction fun other => ?_)
      unfold startsFraction at fraction
      split at fraction
      · next same => exact other (List.cons.inj same).1
      · cases fraction

/-- A numeral that was scanned is sound. -/
theorem sound_scanNumber {c : Char} {rest : List Char}
    (start : (c.isDigit || startsFraction (c :: rest)) = true) :
    (scanNumber (c :: rest)).Sound := by
  intro kind h rereads
  have number {kind : TokenKind} (numeric : kind = .integer ∨ kind = .real) (lexeme : String) :
      kind ≠ .eof ∧ ∀ name, (Word.mk kind lexeme).token.identifier? = some name →
        name.word.Spelled ∧ name.word.token.identifier? = some name := by
    rcases numeric with rfl | rfl <;> exact ⟨by decide, fun name h => by cases h⟩
  obtain ⟨rfl, unsigned⟩ | rfl := scanNumber_ok h
  · obtain ⟨more, noName⟩ := number (.inl rfl) (String.ofList (scanNumber (c :: rest)).used)
    refine ⟨more, noName, fun literal h => ?_⟩
    obtain ⟨value, read, rfl⟩ := Option.map_eq_some_iff.mp h
    refine Literal.integer_sound (Token.nonneg_of_integer? (fun d hd => ?_) read)
    exact unsigned d (by simpa [Word.token] using hd)
  · obtain ⟨more, noName⟩ := number (.inr rfl) (String.ofList (scanNumber (c :: rest)).used)
    refine ⟨more, noName, fun literal h => ?_⟩
    obtain ⟨value, real, rfl⟩ := Option.map_eq_some_iff.mp h
    obtain ⟨read, finite⟩ := Option.filter_eq_some_iff.mp real
    have again := rereads value real
    have positive : value.isNegative = false := by
      obtain ⟨tail, used, unsigned⟩ := scanNumber_used_head start
      rw [used] at read
      exact isNegative_of_readReal? String.toList_ofList unsigned read
    refine ⟨⟨value, positive, finite, rfl, again⟩, ?_⟩
    simp [Literal.word, Word.token, Token.literal?, Token.real?, again, finite]

/-- A mark that was scanned is sound. -/
theorem sound_scanSymbol (c : Char) (rest : List Char) : (scanSymbol (c :: rest)).Sound := by
  unfold scanSymbol
  split
  case h_23 => exact nofun
  case h_24 => contradiction
  all_goals
    rintro _ ⟨⟩ _
    exact Word.sound_of_none nofun rfl rfl

/-- What was scanned is sound. -/
theorem sound_scanToken {text : List Char} (nonempty : text ≠ []) : (scanToken text).Sound := by
  unfold scanToken
  split
  · exact absurd rfl nonempty
  · exact sound_scanString _
  · exact sound_scanDelimited _
  · split
    · exact sound_scanNumber ‹_›
    · split
      · exact sound_scanWord ‹_›
      · exact sound_scanSymbol _ _

/-! ### Texts -/

/-- The next token is the end marker, or its word is sound. -/
theorem Lexer.word_of_next {lexer following : Lexer} {token : Token}
    (h : lexer.next = (.ok token, following)) (rereads : token.Rereads) :
    token.word = endWord ∨ token.word.Sound := by
  unfold next at h
  simp only at h
  split at h
  · cases h
  · generalize (skipGap .between lexer.place lexer.rest).rest = rest at h
    by_cases empty : rest = []
    · subst empty
      obtain ⟨answer, -⟩ := Prod.mk.inj h
      cases answer
      exact .inl rfl
    · obtain ⟨answer, -⟩ := Prod.mk.inj h
      unfold Lexeme.answer at answer
      split at answer
      · next kind accepted =>
        cases answer
        exact .inr (sound_scanToken empty kind accepted rereads)
      · cases answer

/-- The words of a text are sound, if its real numbers are read again, and an end marker stands
behind them. -/
theorem Lexer.words_of_tokens {lexer : Lexer} {tokens : List Token}
    (h : lexer.tokens = .ok tokens) (rereads : ∀ token ∈ tokens, token.Rereads) :
    ∃ words, tokens.map Token.word = words ++ [endWord] ∧ ∀ word ∈ words, word.Sound := by
  induction hlength : lexer.rest.length using Nat.strongRecOn generalizing lexer tokens with
  | ind length ih =>
    subst hlength
    rw [lexer.tokens_eq] at h
    split at h
    · cases h
    · next token following hnext =>
      split at h
      · next last =>
        cases h
        obtain final | sound := word_of_next hnext (rereads token List.mem_cons_self)
        · exact ⟨[], by simp [final], fun _ h => absurd h List.not_mem_nil⟩
        · exact absurd (of_decide_eq_true last) sound.kind_ne
      · next more =>
        cases hothers : following.tokens with
        | error error => rw [hothers] at h; cases h
        | ok others =>
          rw [hothers] at h
          cases h
          obtain ⟨rereadsFirst, rereadsOthers⟩ := List.forall_mem_cons.mp rereads
          have shorter := length_next_lt hnext (Bool.eq_false_iff.mpr more)
          obtain ⟨words, hwords, sound⟩ := ih _ shorter hothers rereadsOthers rfl
          have first : token.word.Sound := by
            obtain final | sound := word_of_next hnext rereadsFirst
            · exact absurd (decide_eq_true (congrArg Word.kind final)) more
            · exact sound
          exact ⟨token.word :: words, by simp [hwords], List.forall_mem_cons.mpr ⟨first, sound⟩⟩

end Adql
