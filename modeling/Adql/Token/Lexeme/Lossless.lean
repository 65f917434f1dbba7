import Adql.Token.Lexeme

/-!
# Nothing is lost between tokens

Each reader splits its text into what it used and what is left (`scanToken_append`), and it uses
at least one character of a text that is not empty (`scanToken_used_ne_nil`), so what is left is
shorter (`length_scanToken_lt`).
-/

namespace Adql

open Adql.Text Adql.Decimal

/-- The rest of a quoted text is split at its closing quote. -/
theorem closeQuote_append {quote : Char} {text body rest : List Char}
    (h : closeQuote quote text = some (body, rest)) : body ++ rest = text := by
  fun_induction closeQuote quote text generalizing body rest with
  | case1 => simp at h
  | case2 => simp_all
  | case3 => simp at h
  | case4 rest ih =>
    obtain ⟨⟨inner, left⟩, hinner, hpair⟩ := Option.map_eq_some_iff.1 h
    simp only [Prod.mk.injEq] at hpair
    simp [← hpair.1, ← hpair.2, ih hinner]
  | case5 =>
    simp only [Option.some.injEq, Prod.mk.injEq] at h
    simp [← h.1, ← h.2]
  | case6 c d rest hc ih =>
    obtain ⟨⟨inner, left⟩, hinner, hpair⟩ := Option.map_eq_some_iff.1 h
    simp only [Prod.mk.injEq] at hpair
    simp [← hpair.1, ← hpair.2, ih hinner]

/-- A string literal and what follows it make up the text. -/
theorem scanString_append (rest : List Char) :
    (scanString rest).used ++ (scanString rest).rest = '\'' :: rest := by
  unfold scanString
  split
  · next h => simp [closeQuote_append h]
  · simp

/-- A delimited identifier and what follows it make up the text. -/
theorem scanDelimited_append (rest : List Char) :
    (scanDelimited rest).used ++ (scanDelimited rest).rest = '"' :: rest := by
  unfold scanDelimited
  split
  · next h => simp [closeQuote_append h]
  · simp

/-- A malformed numeral takes its characters from what is left. -/
theorem malformed_append (used rest : List Char) :
    (malformed used rest).used ++ (malformed used rest).rest = used ++ rest := by
  simp [malformed]

/-- Whether or not a numeral has a value, its characters come from the text. -/
theorem scanNumeral_append (used rest : List Char) (hasValue : Bool) (kind : TokenKind) :
    (scanNumeral used rest hasValue kind).used ++ (scanNumeral used rest hasValue kind).rest =
      used ++ rest := by
  unfold scanNumeral
  split
  · rfl
  · exact malformed_append used rest

/-- A hexadecimal literal and what follows it make up the text. -/
theorem scanHexadecimal_append (mark rest : List Char) :
    (scanHexadecimal mark rest).used ++ (scanHexadecimal mark rest).rest = mark ++ rest := by
  simp [scanHexadecimal, scanNumeral_append]

/-- A run of digits and what follows it make up the text. -/
theorem spanDigits_append (text : List Char) :
    (spanDigits text).1 ++ (spanDigits text).2 = text := by
  simp [spanDigits]

/-- A fraction and what follows it make up the text. -/
theorem splitFraction_append (text : List Char) :
    (splitFraction text).1 ++ (splitFraction text).2 = text := by
  unfold splitFraction
  split
  · split
    · simp [spanDigits_append]
    · simp
  · simp

/-- The mark of an exponent and what follows it make up the text. -/
theorem splitExponentMark_append (text : List Char) :
    (splitExponentMark text).1 ++ (splitExponentMark text).2 = text := by
  unfold splitExponentMark
  split
  · rfl
  · split
    · split <;> simp
    · simp

/-- A decimal numeral and what follows it make up the text. -/
theorem scanDecimal_append (text : List Char) :
    (scanDecimal text).used ++ (scanDecimal text).rest = text := by
  have whole := spanDigits_append text
  have fraction := splitFraction_append (spanDigits text).2
  have mark := splitExponentMark_append (splitFraction (spanDigits text).2).2
  have exponent := spanDigits_append (splitExponentMark (splitFraction (spanDigits text).2).2).2
  simp only [scanDecimal]
  split
  · next empty =>
    rw [List.isEmpty_iff] at empty
    rw [empty, List.nil_append] at mark
    split <;> rw [scanNumeral_append, List.append_assoc, mark, fraction, whole]
  · rw [scanNumeral_append, List.append_assoc, exponent, List.append_assoc, mark,
      List.append_assoc, fraction, whole]

/-- A numeral and what follows it make up the text. -/
theorem scanNumber_append (text : List Char) :
    (scanNumber text).used ++ (scanNumber text).rest = text := by
  unfold scanNumber
  split
  · simp [scanHexadecimal_append]
  · simp [scanHexadecimal_append]
  · exact scanDecimal_append text

/-- A mark and what follows it make up the text. -/
theorem scanSymbol_append (text : List Char) :
    (scanSymbol text).used ++ (scanSymbol text).rest = text := by
  unfold scanSymbol
  split <;> rfl

/-- What is used and what is left make up the text. -/
theorem scanToken_append (text : List Char) :
    (scanToken text).used ++ (scanToken text).rest = text := by
  unfold scanToken
  split
  · rfl
  · exact scanString_append _
  · exact scanDelimited_append _
  · split
    · exact scanNumber_append _
    · split
      · simp [scanWord]
      · exact scanSymbol_append _

/-- A numeral that has used characters keeps them. -/
theorem scanNumeral_used_ne_nil {used rest : List Char} (hasValue : Bool) (kind : TokenKind)
    (h : used ≠ []) : (scanNumeral used rest hasValue kind).used ≠ [] := by
  unfold scanNumeral
  split
  · exact h
  · simp [malformed, h]

/-- A decimal numeral begins with a digit, or with a point and a digit. -/
theorem scanDecimal_used_ne_nil {c : Char} {rest : List Char}
    (h : (c.isDigit || startsFraction (c :: rest)) = true) :
    (scanDecimal (c :: rest)).used ≠ [] := by
  have start : (spanDigits (c :: rest)).1 ++ (splitFraction (spanDigits (c :: rest)).2).1 ≠ [] := by
    rcases Bool.or_eq_true _ _ ▸ h with digit | fraction
    · simp [spanDigits, digit]
    · match rest with
      | [] => simp [startsFraction] at fraction
      | d :: rest =>
        by_cases hc : c = '.'
        · subst hc
          have hd : d.isDigit = true := fraction
          simp [spanDigits, splitFraction, hd, show Char.isDigit '.' = false from rfl]
        · simp [startsFraction, hc] at fraction
  simp only [scanDecimal]
  split
  · split <;> exact scanNumeral_used_ne_nil _ _ start
  · exact scanNumeral_used_ne_nil _ _ (by simp_all)

/-- A numeral uses at least one character. -/
theorem scanNumber_used_ne_nil {c : Char} {rest : List Char}
    (h : (c.isDigit || startsFraction (c :: rest)) = true) :
    (scanNumber (c :: rest)).used ≠ [] := by
  unfold scanNumber
  split
  · exact scanNumeral_used_ne_nil _ _ (by simp)
  · exact scanNumeral_used_ne_nil _ _ (by simp)
  · exact scanDecimal_used_ne_nil h

/-- A mark uses at least one character. -/
theorem scanSymbol_used_ne_nil {text : List Char} (h : text ≠ []) :
    (scanSymbol text).used ≠ [] := by
  unfold scanSymbol
  split <;> simp_all

/-- A text that is not empty has a first token, which uses at least one character. -/
theorem scanToken_used_ne_nil {text : List Char} (h : text ≠ []) : (scanToken text).used ≠ [] := by
  unfold scanToken
  split
  · exact absurd rfl h
  · unfold scanString
    split <;> simp
  · unfold scanDelimited
    split <;> simp
  · split
    · next start => exact scanNumber_used_ne_nil start
    · split
      · next start => simp [scanWord, continuesWord_of_startsWord start]
      · exact scanSymbol_used_ne_nil h

/-- A text that is not empty gets shorter. -/
theorem length_scanToken_lt {text : List Char} (h : text ≠ []) :
    (scanToken text).rest.length < text.length := by
  have whole := congrArg List.length (scanToken_append text)
  have used := List.length_pos_iff.2 (scanToken_used_ne_nil h)
  rw [List.length_append] at whole
  omega

end Adql
