import Adql.Proofs.Tokens.Tiling

/-!
# Lexemes stand alone

A token that was read is read again wherever its text stands in front of a text that severs as well
as the one that followed (`SeversLike`): the readers look at one or two characters behind a token,
and none of them goes on with a blank, a comma or a closing parenthesis.  There is one lemma for each reader, and `scanToken_severed`
puts them together.

So the lexemes of a source, with blanks between them, are cut into the same words
(`tokenize_spaced`).
-/

namespace Adql

open Adql.Text Adql.Decimal

variable {text used rest other : List Char} {kind : TokenKind}

/-! ### Runs of characters -/

/-- A run of characters that no token ends in front of is the same run in front of what severs as
well. -/
theorem SeversLike.run {p : Char → Bool} (severs : SeversLike (text.dropWhile p) other)
    (none : ∀ c, endsTokens c = true → p c = false) :
    (text.takeWhile p ++ other).takeWhile p = text.takeWhile p ∧
      (text.takeWhile p ++ other).dropWhile p = other := by
  refine takeWhile_append_stop List.all_takeWhile (severs.stop none fun c hc => ?_)
  have stop := List.head?_dropWhile_not p text
  rw [hc] at stop
  simpa using stop

/-- The same holds of a run of digits. -/
theorem spanDigits_severed {digits : List Char} (h : spanDigits text = (digits, rest))
    (severs : SeversLike rest other) : spanDigits (digits ++ other) = (digits, other) := by
  cases h
  obtain ⟨taken, left⟩ := severs.run fun _ => isDigit_of_endsTokens
  rw [spanDigits, taken, left]

/-! ### Words and quoted texts -/

/-- Nothing that tokens end in front of goes on a word. -/
theorem continuesWord_of_endsTokens {c : Char} (h : endsTokens c = true) :
    continuesWord c = false :=
  eq_false_of_endsTokens (fun _ => continuesWord_of_isBlank) (by decide +kernel) (by decide +kernel) c h

/-- A word ends in front of what severs as well. -/
theorem scanWord_severed (h : scanWord text = ⟨used, rest, .ok kind⟩)
    (severs : SeversLike rest other) : scanWord (used ++ other) = ⟨used, other, .ok kind⟩ := by
  obtain ⟨rfl, rfl, same⟩ := Lexeme.mk.inj h
  obtain ⟨taken, left⟩ := severs.run fun _ => continuesWord_of_endsTokens
  rw [scanWord, taken, left]
  exact congrArg _ same

/-- A quoted text ends in front of something else than its quote. -/
theorem head?_of_closeQuote {quote : Char} {body : List Char}
    (h : closeQuote quote text = some (body, rest)) : rest.head? ≠ some quote := by
  fun_induction closeQuote quote text generalizing body rest with
  | case1 | case3 => cases h
  | case2 =>
    cases h
    simp
  | case4 _ ih | case6 _ _ _ _ ih =>
    obtain ⟨⟨inner, left⟩, hinner, hpair⟩ := Option.map_eq_some_iff.1 h
    cases hpair
    exact ih hinner
  | case5 d rest' other =>
    cases h
    simpa using other

/-- A quoted text is closed by the same quote in front of what severs as well. -/
theorem closeQuote_severed {quote : Char} {body : List Char} (inner : endsTokens quote = false)
    (h : closeQuote quote text = some (body, rest)) (severs : SeversLike rest other) :
    closeQuote quote (body ++ other) = some (body, other) := by
  obtain ⟨quoted, rfl⟩ := eq_double_of_closeQuote h
  rw [List.append_assoc]
  refine closeQuote_double quoted fun starts => ?_
  obtain ends | same := severs.head quote starts
  · rw [inner] at ends
    cases ends
  · exact head?_of_closeQuote h same

/-- A string literal ends in front of what severs as well. -/
theorem scanString_severed {tail : List Char} (h : scanString text = ⟨used, rest, .ok kind⟩)
    (split : used = '\'' :: tail) (severs : SeversLike rest other) :
    scanString (tail ++ other) = ⟨used, other, .ok kind⟩ := by
  unfold scanString at h
  split at h
  · next body left closed =>
    cases h
    cases split
    rw [scanString, closeQuote_severed (by decide) closed severs]
  · cases h

/-- A delimited identifier ends in front of what severs as well. -/
theorem scanDelimited_severed {tail : List Char}
    (h : scanDelimited text = ⟨used, rest, .ok kind⟩) (split : used = '"' :: tail)
    (severs : SeversLike rest other) :
    scanDelimited (tail ++ other) = ⟨used, other, .ok kind⟩ := by
  unfold scanDelimited at h
  split at h
  · next body left closed =>
    obtain ⟨rfl, rfl, same⟩ := Lexeme.mk.inj h
    cases split
    rw [scanDelimited, closeQuote_severed (by decide) closed severs]
    exact congrArg _ same
  · cases h

/-! ### Numbers -/

/-- What severs as well does not go on a word. -/
theorem SeversLike.goesOn (severs : SeversLike rest other) (stop : goesOn rest = false) :
    goesOn other = false := by
  cases other with
  | nil => rfl
  | cons c other =>
    refine severs.stop (fun _ => continuesWord_of_endsTokens) (fun d hd => ?_) c rfl
    obtain ⟨tail, rfl⟩ := List.head?_eq_some_iff.mp hd
    exact stop

/-- A numeral that was accepted is accepted in front of what severs as well. -/
theorem scanNumeral_severed {digits left : List Char} {hasValue : Bool} {kind' : TokenKind}
    (h : scanNumeral digits left hasValue kind' = ⟨used, rest, .ok kind⟩)
    (severs : SeversLike rest other) :
    used = digits ∧ rest = left ∧
      scanNumeral digits other hasValue kind' = ⟨used, other, .ok kind⟩ := by
  unfold scanNumeral at h ⊢
  split at h
  · next accepted =>
    cases h
    obtain ⟨value, stop⟩ := Bool.and_eq_true _ _ ▸ accepted
    have stop : goesOn other = false := severs.goesOn (by simpa using stop)
    exact ⟨rfl, rfl, by simp [value, stop]⟩
  · cases h

/-- A fraction is split off only where one starts. -/
theorem splitFraction_eq (text : List Char) :
    splitFraction text =
      if startsFraction text then ('.' :: (spanDigits text.tail).1, (spanDigits text.tail).2)
      else ([], text) := by
  unfold splitFraction startsFraction
  split
  · rfl
  · simp_all

/-- A text that starts with a fraction starts with a point and a digit. -/
theorem exists_of_startsFraction (h : startsFraction text = true) :
    ∃ d tail, text = '.' :: d :: tail ∧ d.isDigit = true := by
  unfold startsFraction at h
  split at h
  · next d tail => exact ⟨d, tail, rfl, h⟩
  · cases h

/-- A fraction is split off in front of what severs as well. -/
theorem splitFraction_severed {fraction : List Char} (h : splitFraction text = (fraction, rest))
    (severs : SeversLike rest other) : splitFraction (fraction ++ other) = (fraction, other) := by
  rw [splitFraction_eq] at h
  split at h
  · next starts =>
    obtain ⟨d, tail, rfl, digit⟩ := exists_of_startsFraction starts
    rw [List.tail_cons] at h
    have first : (spanDigits (d :: tail)).1 = d :: (spanDigits tail).1 := by
      simp [spanDigits, digit]
    rcases run : spanDigits (d :: tail) with ⟨digits, left⟩
    rw [run] at h first
    obtain ⟨rfl, rfl⟩ := Prod.mk.inj h
    have again := spanDigits_severed run severs
    simp only at first ⊢
    rw [first] at again ⊢
    have starts : startsFraction ('.' :: d :: (spanDigits tail).1 ++ other) = true := digit
    rw [splitFraction_eq, if_pos starts]
    exact congrArg (fun run => ('.' :: run.1, run.2)) again
  · next none =>
    cases h
    have none : startsFraction other = false :=
      Bool.eq_false_iff.mpr fun starts => none (severs.fraction starts)
    rw [List.nil_append, splitFraction_eq, none]
    rfl

/-- A text that starts with no letter for an exponent has no exponent. -/
theorem splitExponentMark_none (noLetter : ∀ c ∈ text.head?, ¬(c = 'e' ∨ c = 'E')) :
    splitExponentMark text = ([], text) := by
  cases text with
  | nil => rfl
  | cons c text => simp only [splitExponentMark, if_neg (noLetter c rfl)]

/-- The mark of an exponent is split off in front of what severs as well. -/
theorem splitExponentMark_severed {mark : List Char} (h : splitExponentMark text = (mark, rest))
    (severs : SeversLike rest other) : splitExponentMark (mark ++ other) = (mark, other) := by
  have first {d : Char} (starts : other.head? = some d) (inner : endsTokens d = false) :
      rest.head? = some d := by
    obtain ends | same := severs.head d starts
    · rw [inner] at ends
      cases ends
    · exact same
  unfold splitExponentMark at h
  split at h
  · cases h
    refine splitExponentMark_none fun d starts letter => ?_
    cases first starts (by obtain rfl | rfl := letter <;> decide)
  · next c tail =>
    split at h
    · next letter =>
      split at h
      · cases h
        simp [splitExponentMark, letter]
      · cases h
        simp [splitExponentMark, letter]
      · next noPlus noMinus =>
        cases h
        rw [List.singleton_append, splitExponentMark, if_pos letter]
        · rintro more rfl
          obtain ⟨tail, rfl⟩ := List.head?_eq_some_iff.mp (first rfl (by decide))
          exact noPlus tail rfl
        · rintro more rfl
          obtain ⟨tail, rfl⟩ := List.head?_eq_some_iff.mp (first rfl (by decide))
          exact noMinus tail rfl
    · next noLetter =>
      cases h
      refine splitExponentMark_none fun d starts letter => noLetter ?_
      cases first starts (by obtain rfl | rfl := letter <;> decide)
      exact letter

/-- A decimal numeral ends in front of what severs as well. -/
theorem scanDecimal_severed (h : scanDecimal text = ⟨used, rest, .ok kind⟩)
    (severs : SeversLike rest other) : scanDecimal (used ++ other) = ⟨used, other, .ok kind⟩ := by
  unfold scanDecimal at h
  rcases digits : spanDigits text with ⟨whole, behindWhole⟩
  rcases point : splitFraction behindWhole with ⟨fraction, behindFraction⟩
  rcases sign : splitExponentMark behindFraction with ⟨mark, behindMark⟩
  simp only [digits, point, sign] at h
  have splitPoint := splitFraction_append behindWhole
  have splitSign := splitExponentMark_append behindFraction
  simp only [point, sign] at splitPoint splitSign
  subst splitPoint splitSign
  split at h
  · next empty =>
    obtain rfl : mark = [] := List.isEmpty_iff.mp empty
    have same : used = whole ++ fraction ∧ rest = behindMark := by
      split at h
      · exact (scanNumeral_severed h severs).imp_right And.left
      · exact (scanNumeral_severed h severs).imp_right And.left
    obtain ⟨rfl, rfl⟩ := same
    have digits := spanDigits_severed digits (severs.append fraction)
    have point := splitFraction_severed point severs
    have sign := splitExponentMark_severed sign severs
    rw [List.nil_append] at sign
    unfold scanDecimal
    simp only [List.append_assoc, digits, point, sign, List.isEmpty_nil, if_true]
    split at h
    · next none =>
      rw [if_pos none]
      exact (scanNumeral_severed h severs).2.2
    · next some =>
      rw [if_neg some]
      exact (scanNumeral_severed h severs).2.2
  · next present =>
    rcases exponent : spanDigits behindMark with ⟨power, behindPower⟩
    simp only [exponent] at h
    obtain ⟨rfl, rfl, again⟩ := scanNumeral_severed h severs
    have splitPower := spanDigits_append behindMark
    simp only [exponent] at splitPower
    subst splitPower
    have severs' := severs.append power
    have digits := spanDigits_severed digits ((severs'.append mark).append fraction)
    have point := splitFraction_severed point (severs'.append mark)
    have sign := splitExponentMark_severed sign severs'
    have exponent := spanDigits_severed exponent severs
    unfold scanDecimal
    simp only [List.append_assoc, digits, point, sign, exponent, if_neg present]
    simpa using again

/-- A hexadecimal literal ends in front of what severs as well. -/
theorem scanHexadecimal_severed {mark : List Char}
    (h : scanHexadecimal mark text = ⟨used, rest, .ok kind⟩) (severs : SeversLike rest other) :
    ∃ digits, used = mark ++ digits ∧
      scanHexadecimal mark (digits ++ other) = ⟨used, other, .ok kind⟩ := by
  unfold scanHexadecimal at h ⊢
  obtain ⟨rfl, rfl, again⟩ := scanNumeral_severed h severs
  refine ⟨text.takeWhile isHexDigit, rfl, ?_⟩
  have noBlank (c : Char) (blank : isBlank c = true) : isHexDigit c = false := by
    refine Bool.eq_false_iff.mpr fun digit => ?_
    rw [isBlank_of_isHexDigit digit] at blank
    cases blank
  obtain ⟨taken, left⟩ := severs.run (eq_false_of_endsTokens noBlank (by decide) (by decide))
  rw [taken, left]
  exact again

/-- A text that does not start with the mark of a hexadecimal literal is scanned as a decimal numeral.
-/
theorem scanNumber_decimal
    (decimal : ∀ mark tail, mark = 'x' ∨ mark = 'X' → text ≠ '0' :: mark :: tail) :
    scanNumber text = scanDecimal text := by
  unfold scanNumber
  split
  · exact absurd rfl (decimal _ _ (.inl rfl))
  · exact absurd rfl (decimal _ _ (.inr rfl))
  · rfl

/-- A numeral ends in front of what severs as well. -/
theorem scanNumber_severed (h : scanNumber text = ⟨used, rest, .ok kind⟩) (nonempty : used ≠ [])
    (severs : SeversLike rest other) : scanNumber (used ++ other) = ⟨used, other, .ok kind⟩ := by
  have whole := scanNumber_append text
  rw [h] at whole
  unfold scanNumber at h
  split at h
  · obtain ⟨digits, rfl, again⟩ := scanHexadecimal_severed h severs
    exact again
  · obtain ⟨digits, rfl, again⟩ := scanHexadecimal_severed h severs
    exact again
  · next lower upper =>
    have decimal : ∀ mark tail, mark = 'x' ∨ mark = 'X' → used ++ other ≠ '0' :: mark :: tail := by
      rintro mark tail isMark same
      have inner : endsTokens mark = false := by obtain rfl | rfl := isMark <;> decide
      cases used with
      | nil => exact nonempty rfl
      | cons c digits =>
        obtain ⟨rfl, behind⟩ := List.cons.inj same
        -- the mark stands among the digits, or it is what follows them
        have starts : (digits ++ other).head? = some mark := congrArg List.head? behind
        obtain ends | starts := (severs.append digits).head mark starts
        · rw [inner] at ends
          cases ends
        · obtain ⟨tail, behind⟩ := List.head?_eq_some_iff.mp starts
          have split : text = '0' :: mark :: tail := by rw [← whole, List.cons_append, behind]
          obtain rfl | rfl := isMark
          · exact lower tail split
          · exact upper tail split
    rw [scanNumber_decimal decimal]
    exact scanDecimal_severed h severs

/-! ### Marks -/

/-- A mark ends in front of what severs as well. -/
theorem scanSymbol_severed (h : scanSymbol text = ⟨used, rest, .ok kind⟩)
    (more : text ≠ []) (severs : SeversLike rest other) :
    scanSymbol (used ++ other) = ⟨used, other, .ok kind⟩ := by
  -- a second character of a mark would be there before, too
  have single {d : Char} (inner : endsTokens d = false) (absent : ∀ tail, rest = d :: tail → False) :
      ∀ tail, other = d :: tail → False := by
    rintro tail rfl
    obtain ends | same := severs.head d rfl
    · rw [inner] at ends
      cases ends
    · obtain ⟨tail, rfl⟩ := List.head?_eq_some_iff.mp same
      exact absent tail rfl
  unfold scanSymbol at h
  split at h
  case h_16 noBar =>
    cases h
    rw [List.singleton_append, scanSymbol]
    exact single (by decide) noBar
  case h_18 noEqual =>
    cases h
    rw [List.singleton_append, scanSymbol]
    exact single (by decide) noEqual
  case h_21 noEqual noGreater =>
    cases h
    rw [List.singleton_append, scanSymbol]
    · exact single (by decide) noEqual
    · exact single (by decide) noGreater
  case h_23 => cases h
  case h_24 => exact absurd rfl more
  all_goals
    cases h
    rfl

/-! ### Tokens -/

/-- A point is read as part of a number only if a digit follows it. -/
theorem startsFraction_of_scanNumber (h : scanNumber ('.' :: text) = ⟨used, rest, .ok kind⟩)
    (nonempty : used ≠ []) : startsFraction ('.' :: text) = true := by
  by_contra none
  have noFraction : splitFraction ('.' :: text) = ([], '.' :: text) := by
    rw [splitFraction_eq, if_neg none]
  have noMark : splitExponentMark ('.' :: text) = ([], '.' :: text) :=
    splitExponentMark_none (by simp)
  have noDigits : spanDigits ('.' :: text) = ([], '.' :: text) := rfl
  rw [scanNumber_decimal (by simp)] at h
  simp only [scanDecimal, noDigits, noFraction, noMark, List.isEmpty_nil, if_true,
    List.append_nil] at h
  have severs : SeversLike rest [] := .of_blank fun c none => by cases none
  exact nonempty (scanNumeral_severed h severs).1

/-- A text that starts with no quote is scanned as a numeral, a word or a mark. -/
theorem scanToken_cons {c : Char} {tail : List Char} (single : c ≠ '\'') (double : c ≠ '"') :
    scanToken (c :: tail) =
      if c.isDigit || startsFraction (c :: tail) then scanNumber (c :: tail)
      else if startsWord c then scanWord (c :: tail)
      else scanSymbol (c :: tail) := by
  rw [scanToken]
  · exact single
  · exact double

/-- A token is read again wherever its text stands in front of what severs as well. -/
theorem scanToken_severed (h : scanToken text = ⟨used, rest, .ok kind⟩) (more : kind ≠ .eof)
    (severs : SeversLike rest other) : scanToken (used ++ other) = ⟨used, other, .ok kind⟩ := by
  have whole := scanToken_append text
  have nonempty : used ≠ [] := by
    have present : text ≠ [] := by
      rintro rfl
      cases h
      exact more rfl
    have := scanToken_used_ne_nil present
    rwa [h] at this
  rw [h] at whole
  simp only at whole
  subst whole
  cases used with
  | nil => exact absurd rfl nonempty
  | cons c tail =>
    rw [List.cons_append] at h ⊢
    by_cases single : c = '\''
    · subst single
      exact scanString_severed h rfl severs
    by_cases double : c = '"'
    · subst double
      exact scanDelimited_severed h rfl severs
    rw [scanToken_cons single double] at h ⊢
    split at h
    · next number =>
      have again := scanNumber_severed h nonempty severs
      rw [if_pos]
      · exact again
      · obtain digit | fraction := Bool.or_eq_true _ _ ▸ number
        · rw [digit, Bool.true_or]
        · obtain ⟨d, digits, same, -⟩ := exists_of_startsFraction fraction
          obtain rfl := (List.cons.inj same).1
          exact startsFraction_of_scanNumber again nonempty
    · next noNumber =>
      rw [if_neg fun number => noNumber ?_]
      · split at h
        · next starts =>
          rw [if_pos starts]
          exact scanWord_severed h severs
        · next noWord =>
          rw [if_neg noWord]
          exact scanSymbol_severed h (by simp) severs
      · refine Bool.or_eq_true _ _ ▸ (Bool.or_eq_true _ _ ▸ number).imp_right fun fraction => ?_
        exact (severs.append (c :: tail)).fraction fraction

/-! ### Sources -/

namespace Word.CutOff

variable {word : Word}

/-- A word that is cut off is some text. -/
theorem ne_nil (h : word.CutOff rest) : word.lexeme.toList ++ rest ≠ [] := by
  intro empty
  have scanned := h.scanned
  rw [empty] at scanned
  exact h.more (Except.ok.inj (congrArg Lexeme.outcome scanned)).symm

/-- A word is cut off in front of what severs as well. -/
theorem severed (h : word.CutOff rest) (severs : SeversLike rest other) : word.CutOff other where
  more := h.more
  noGap := by
    have text : word.lexeme.toList ≠ [] := by
      have used := scanToken_used_ne_nil h.ne_nil
      rwa [h.scanned] at used
    have noGap := noGap_of_skipGap (congrArg Gap.unclosed (h.noGap .origin))
    rw [h.noGap] at noGap
    exact (noGap.severed text severs).skipGap
  scanned := scanToken_severed h.scanned h.more severs

end Word.CutOff

/-- A token that was read is cut off in front of what is left. -/
theorem Lexer.cutOff_of_next {lexer following : Lexer} {token : Token}
    (h : lexer.next = (.ok token, following)) (more : token.kind ≠ .eof) :
    token.word.CutOff following.rest := by
  unfold next at h
  simp only at h
  split at h
  · cases h
  · next closed =>
    have noGap := noGap_of_skipGap closed
    obtain ⟨answer, rfl⟩ := Prod.mk.inj h
    generalize (skipGap .between lexer.place lexer.rest).rest = text at *
    have parts := scanToken_append text
    rcases scanned : scanToken text with ⟨used, left, outcome⟩
    rw [scanned] at answer parts
    simp only at parts
    unfold Lexeme.answer at answer
    simp only at answer
    split at answer
    · next kind =>
      obtain rfl := Except.ok.inj answer
      subst parts
      refine ⟨more, fun place => ?_, ?_⟩
      · simpa [Token.word] using noGap.skipGap place
      · simpa [Token.word] using scanned
    · cases answer

/-- Each token of a text but the end marker is cut off where nothing follows it. -/
theorem Lexer.cutOff_of_tokens {lexer : Lexer} {tokens : List Token}
    (h : lexer.tokens = .ok tokens) :
    ∀ token ∈ tokens, token.kind ≠ .eof → token.word.CutOff [] := by
  refine Lexer.tokens_induction
    (motive := fun _ tokens => ∀ token ∈ tokens, token.kind ≠ .eof → token.word.CutOff []) ?_ ?_ h
  · intro lexer token following _ ends
    refine List.forall_mem_singleton.mpr fun more => ?_
    exact absurd (of_decide_eq_true ends) more
  · intro lexer token following others hnext _ ih
    refine List.forall_mem_cons.mpr ⟨fun more => ?_, ih⟩
    exact (cutOff_of_next hnext more).severed (.of_blank nofun)

/-- A gap in front changes nothing. -/
theorem Cuts.gap {words : List Word} {gap : List Char} (isGap : IsGap gap text)
    (h : Cuts text words) : Cuts (gap ++ text) words := by
  intro place
  have same : (Lexer.mk (gap ++ text) place).next = (Lexer.mk text (place.advance gap)).next := by
    simp only [Lexer.next, isGap.skipGap]
  rw [Lexer.tokens_congr same]
  exact h _

/-- The lexemes of tokens, one after the other, each behind its blanks. -/
def spacedText (spaced : List (String × Token)) : String :=
  String.join (spaced.map fun (blanks, token) => blanks ++ token.lexeme)

/-- The characters of the text are those of the first pair and of the others. -/
theorem toList_spacedText_cons (blanks : String) (token : Token)
    (spaced : List (String × Token)) : (spacedText ((blanks, token) :: spaced)).toList =
      blanks.toList ++ (token.lexeme.toList ++ (spacedText spaced).toList) := by
  simp [spacedText]

/-- Lexemes that are cut off, with blanks between them, are cut into their words. -/
theorem Cuts.spaced {spaced : List (String × Token)} {blanks : List Char}
    (cutOff : ∀ pair ∈ spaced, pair.2.word.CutOff [])
    (blank : ∀ pair ∈ spaced, ∀ c ∈ pair.1.toList, isBlank c = true)
    (apart : ∀ pair ∈ spaced.tail, pair.1 ≠ "") (behind : ∀ c ∈ blanks, isBlank c = true) :
    Cuts ((spacedText spaced).toList ++ blanks) (spaced.map fun pair => pair.2.word) := by
  induction spaced with
  | nil => simpa [spacedText] using Cuts.nil.gap (.of_blanks behind [])
  | cons pair spaced ih =>
    obtain ⟨gap, token⟩ := pair
    obtain ⟨first, others⟩ := List.forall_mem_cons.mp cutOff
    obtain ⟨blankFirst, blankOthers⟩ := List.forall_mem_cons.mp blank
    have cut := ih others blankOthers fun pair h => apart pair (List.mem_of_mem_tail h)
    have severs : ∀ c ∈ ((spacedText spaced).toList ++ blanks).head?, isBlank c = true := by
      cases spaced with
      | nil =>
        intro c hc
        exact behind c (List.mem_of_mem_head? (by simpa [spacedText] using hc))
      | cons next spaced =>
        have nonempty : next.1 ≠ "" := apart next List.mem_cons_self
        intro c hc
        obtain ⟨d, rest, split⟩ := List.exists_cons_of_ne_nil (mt String.toList_eq_nil_iff.mp nonempty)
        rw [toList_spacedText_cons, split] at hc
        obtain rfl := Option.some.inj hc
        exact blankOthers next List.mem_cons_self _ (by rw [split]; exact List.mem_cons_self)
    rw [toList_spacedText_cons, List.append_assoc, List.append_assoc]
    exact (cut.cutOff (first.severed (.of_blank severs))).gap (.of_blanks blankFirst _)

/-- The lexemes of a source, written again with blanks between them, with or without blanks at both
ends, are cut into the same kinds and lexemes. -/
theorem tokenize_spaced {source : String} {tokens : List Token} (h : tokenize source = .ok tokens)
    {spaced : List (String × Token)} (same : spaced.map Prod.snd = tokens)
    (blank : ∀ pair ∈ spaced, ∀ c ∈ pair.1.toList, isBlank c = true)
    (apart : ∀ pair ∈ spaced.tail, pair.1 ≠ "" ∨ pair.2.kind = .eof) :
    ∃ again, tokenize (spacedText spaced) = .ok again ∧
      again.map Token.word = tokens.map Token.word := by
  have read : (Lexer.ofText source).HasRead [] source := ⟨rfl, rfl⟩
  obtain ⟨others, place, split, -, texts⟩ := read.ends h
  have cutOff := Lexer.cutOff_of_tokens h
  obtain ⟨front, last, rfl, rfl, final⟩ := List.map_eq_append_iff.mp (same.trans split)
  obtain ⟨⟨blanks, last⟩, rfl, rfl⟩ := List.map_eq_singleton_iff.mp final
  subst split
  have more : ∀ pair ∈ front, pair.2.kind ≠ .eof := fun pair found =>
    (texts pair.2 (List.mem_map_of_mem found)).1
  have cut : Cuts ((spacedText front).toList ++ blanks.toList)
      (front.map fun pair => pair.2.word) := by
    refine .spaced (fun pair found => ?_) (fun pair found => ?_) (fun pair found => ?_) ?_
    · exact cutOff pair.2 (List.mem_append_left _ (List.mem_map_of_mem found)) (more pair found)
    · exact blank pair (List.mem_append_left _ found)
    · refine (apart pair ?_).resolve_right (more pair (List.mem_of_mem_tail found))
      cases front with
      | nil => cases found
      | cons => exact List.mem_append_left _ found
    · exact blank (blanks, .endAt place) (by simp)
  obtain ⟨again, cutTokens, words⟩ := cut .origin
  refine ⟨again, ?_, ?_⟩
  · rw [tokenize, Lexer.ofText]
    have text : (spacedText (front ++ [(blanks, Token.endAt place)])).toList =
        (spacedText front).toList ++ blanks.toList := by
      simp [spacedText, Token.endAt]
    rw [text]
    exact cutTokens
  · simp [words, endWord, Token.word, Token.endAt]

/-- Two numbers that touch each other, with a blank between them and a newline behind them. -/
def apartNumbers : List (String × Token) :=
  [("", ⟨.real, "1.5", ⟨0, 3⟩, 0, 0⟩), (" ", ⟨.real, ".5", ⟨3, 5⟩, 0, 3⟩),
   ("\n", .endAt ⟨5, 0, 5⟩)]

/-- Numbers that touch each other are read again when they are written apart. -/
theorem tokenize_spaced_numbers :
    tokenize "1.5.5" = .ok (apartNumbers.map Prod.snd) ∧ spacedText apartNumbers = "1.5 .5\n" ∧
      ∃ again, tokenize (spacedText apartNumbers) = .ok again ∧
        again.map Token.word = (apartNumbers.map Prod.snd).map Token.word := by
  have cut : tokenize "1.5.5" = .ok (apartNumbers.map Prod.snd) := by decide +kernel
  have blank : apartNumbers.all (fun pair => pair.1.toList.all isBlank) = true := by decide
  refine ⟨cut, by decide, tokenize_spaced cut rfl (fun pair found => ?_) ?_⟩
  · exact List.all_eq_true.mp (List.all_eq_true.mp blank pair found)
  · decide

end Adql
