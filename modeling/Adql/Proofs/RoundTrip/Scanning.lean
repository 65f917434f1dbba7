import Adql.Proofs.RoundTrip.Values
import Adql.Token.Lexer

/-!
# Scanning written words

A word that is written as the printer writes it is scanned as a token of its kind, provided that
what follows does not run into it: `TokenKind.Fits` says which texts may stand at once behind a
word of a kind.  There is one lemma for each way of writing a word, and `Word.Spelled.scanToken`
puts them together.  In front of a written word, there is no gap (`Word.Spelled.skipGap`).
-/

namespace Adql

open Adql.Text Adql.Decimal

/-! ### What may follow -/

/-- Does the text, if there is any, start with one of the characters? -/
def StartsAmong (allowed : List Char) (text : List Char) : Prop :=
  ∀ c ∈ text.head?, c ∈ allowed

/-- Does the text start with a character behind which every word has ended? -/
abbrev Apart (text : List Char) : Prop :=
  StartsAmong [' ', ')', ','] text

/-- May the text stand at once behind a word of the kind? -/
def TokenKind.Fits : TokenKind → List Char → Prop
  | .leftParen, _ | .plus, _ | .bitNot, _ => True
  | .minus, text => text.head? ≠ some '-'
  | .dot, text => ∀ c ∈ text.head?, c.isDigit = false
  | .keyword _, text | .identifier, text | .delimitedIdentifier, text =>
    StartsAmong [' ', ')', ',', '(', '.'] text
  | _, text => Apart text

/-- Nothing may follow every word. -/
theorem startsAmong_nil (allowed : List Char) : StartsAmong allowed [] := by
  simp [StartsAmong]

/-- A text starts with its first character. -/
theorem startsAmong_cons {allowed : List Char} {c : Char} (text : List Char) (h : c ∈ allowed) :
    StartsAmong allowed (c :: text) := by
  simpa [StartsAmong] using h

/-- With more characters allowed, more texts are. -/
theorem StartsAmong.mono {few many text : List Char} (h : StartsAmong few text)
    (sub : ∀ c ∈ few, c ∈ many) : StartsAmong many text :=
  fun c hc => sub c (h c hc)

/-- What ends every word ends a name. -/
theorem Apart.endsName {text : List Char} (apart : Apart text) :
    StartsAmong [' ', ')', ',', '(', '.'] text :=
  apart.mono (by simp)

/-- What ends every word is no digit. -/
theorem Apart.noDigit {text : List Char} (apart : Apart text) :
    ∀ c ∈ text.head?, c.isDigit = false := by
  have none : ∀ c ∈ [' ', ')', ','], c.isDigit = false := by simp [Char.isDigit]
  exact fun c hc => none c (apart c hc)

/-- Any word may stand in front of a text that starts with a space, a comma or a closing
parenthesis. -/
theorem Apart.fits {text : List Char} (apart : Apart text) (kind : TokenKind) :
    kind.Fits text := by
  have noMinus : text.head? ≠ some '-' := fun h => absurd (apart '-' h) (by decide)
  cases kind <;>
    first | exact trivial | exact noMinus | exact apart.noDigit | exact apart.endsName | exact apart

/-- A run of characters of a class ends where a text of the class ends. -/
theorem takeWhile_append_stop {p : Char → Bool} {text rest : List Char} (all : text.all p = true)
    (stop : ∀ c ∈ rest.head?, p c = false) :
    (text ++ rest).takeWhile p = text ∧ (text ++ rest).dropWhile p = rest := by
  have inside : ∀ c ∈ text, p c = true := List.all_eq_true.mp all
  rw [List.takeWhile_append_of_pos inside, List.dropWhile_append_of_pos inside]
  cases rest with
  | nil => simp
  | cons c rest =>
    have hc : p c = false := stop c rfl
    simp [hc]

/-! ### Words of letters -/

/-- A table does not cover what lies in front of its first range. -/
theorem covers_of_lt {low high point : Nat} {table : RangeTable} (h : point < low) :
    RangeTable.covers ((low, high) :: table) point = false := by
  simp [RangeTable.covers, h]

/-- What starts a word lies behind the digits and the marks of ASCII. -/
theorem le_of_startsWord {c : Char} (h : startsWord c = true) : 0x41 ≤ c.toNat := by
  rcases Bool.or_eq_true _ _ ▸ h with letter | line
  · refine Decidable.byContradiction fun small => ?_
    have low : c.toNat < 0x41 := by omega
    have outside : isLetter c = false := covers_of_lt low
    rw [outside] at letter
    exact absurd letter (by decide)
  · have hc : c = '_' := by simpa using line
    rw [hc]
    decide

/-- What starts a word is none of the characters in front of the letters. -/
theorem ne_of_startsWord {c d : Char} (h : startsWord c = true) (small : d.toNat < 0x41) :
    c ≠ d := by
  rintro rfl
  have := le_of_startsWord h
  omega

/-- What starts a word is no digit. -/
theorem isDigit_of_startsWord {c : Char} (h : startsWord c = true) : c.isDigit = false := by
  have large := le_of_startsWord h
  refine Bool.eq_false_iff.mpr fun digit => ?_
  have range : 48 ≤ c.toNat ∧ c.toNat ≤ 57 := by
    simpa [Char.isDigit, UInt32.le_iff_toNat_le] using digit
  omega

/-- Neither the table of the letters nor that of the numerals covers a blank. -/
theorem covers_of_isBlank {table : RangeTable} (listed : table ∈ [alphabeticRanges, numeralRanges])
    {c : Char} (h : isBlank c = true) : table.covers c.toNat = false := by
  have disjoint : ∀ table ∈ [alphabeticRanges, numeralRanges], ∀ range ∈ blankRanges,
      ∀ offset < 11, range.1 + offset ≤ range.2 → table.covers (range.1 + offset) = false := by
    decide +kernel
  have short : ∀ range ∈ blankRanges, range.2 < range.1 + 11 := by decide
  obtain ⟨range, mem, low, high⟩ := RangeTable.exists_range_of_covers h
  have := short range mem
  have outside := disjoint table listed range mem (c.toNat - range.1) (by omega) (by omega)
  rwa [show range.1 + (c.toNat - range.1) = c.toNat by omega] at outside

/-- No blank is a letter. -/
theorem isLetter_of_isBlank {c : Char} (h : isBlank c = true) : isLetter c = false :=
  covers_of_isBlank List.mem_cons_self h

/-- No blank is a numeral. -/
theorem isNumeral_of_isBlank {c : Char} (h : isBlank c = true) : isNumeral c = false :=
  covers_of_isBlank (List.mem_cons_of_mem _ List.mem_cons_self) h

/-- No blank continues a word. -/
theorem continuesWord_of_isBlank {c : Char} (h : isBlank c = true) : continuesWord c = false := by
  have line : c ≠ '_' := by rintro rfl; exact absurd h (by decide)
  simp [continuesWord, isAlphanumeric, isLetter_of_isBlank h, isNumeral_of_isBlank h, line]

/-- No blank starts a word. -/
theorem isBlank_of_startsWord {c : Char} (h : startsWord c = true) : isBlank c = false := by
  refine Bool.eq_false_iff.mpr fun blank => ?_
  have letter := isLetter_of_isBlank blank
  rcases Bool.or_eq_true _ _ ▸ h with isLetter | line
  · rw [letter] at isLetter
    exact absurd isLetter (by decide)
  · have hc : c = '_' := by simpa using line
    rw [hc] at blank
    exact absurd blank (by decide)

/-- What may follow a name does not continue it. -/
theorem StartsAmong.not_continuesWord {text : List Char}
    (h : StartsAmong [' ', ')', ',', '(', '.'] text) :
    ∀ c ∈ text.head?, continuesWord c = false := by
  have none : ∀ c ∈ [' ', ')', ',', '(', '.'], continuesWord c = false := by
    simp only [List.mem_cons, List.not_mem_nil, or_false, forall_eq_or_imp, forall_eq]
    decide
  exact fun c hc => none c (h c hc)

/-- The kind of a word of letters. -/
def wordKind (word : String) : TokenKind :=
  match Keyword.ofWord? word with
  | some keyword => .keyword keyword
  | none => .identifier

/-- A text that starts with what starts a word is scanned as a word. -/
theorem scanToken_of_startsWord {first : Char} (text : List Char) (starts : startsWord first = true) :
    scanToken (first :: text) = scanWord (first :: text) := by
  have digit := isDigit_of_startsWord starts
  have point : first ≠ '.' := ne_of_startsWord starts (by decide)
  have fraction : startsFraction (first :: text) = false := by simp [startsFraction, point]
  have single : first ≠ '\'' := ne_of_startsWord starts (by decide)
  have double : first ≠ '"' := ne_of_startsWord starts (by decide)
  unfold scanToken
  split
  · contradiction
  · exact absurd (List.cons.inj ‹_›).1 single
  · exact absurd (List.cons.inj ‹_›).1 double
  · next c rest _ _ same =>
    obtain ⟨rfl, rfl⟩ := List.cons.inj same
    simp [digit, fraction, starts]

/-- A word of letters is scanned up to what does not continue it. -/
theorem scanToken_word {first : Char} {text rest : List Char} (starts : startsWord first = true)
    (continues : text.all continuesWord = true)
    (stop : ∀ c ∈ rest.head?, continuesWord c = false) :
    scanToken (first :: text ++ rest) =
      ⟨first :: text, rest, .ok (wordKind (String.ofList (first :: text)))⟩ := by
  have all : (first :: text).all continuesWord = true := by
    simp [continuesWord_of_startsWord starts, continues]
  obtain ⟨taken, left⟩ := takeWhile_append_stop all stop
  rw [List.cons_append, scanToken_of_startsWord _ starts, scanWord, ← List.cons_append, taken,
    left]
  rfl

/-- A reserved word is a word of letters that is recognized. -/
theorem Keyword.isWord (keyword : Keyword) :
    ∃ first text, keyword.spelling.toList = first :: text ∧ startsWord first = true ∧
      text.all continuesWord = true ∧ Keyword.ofWord? keyword.spelling = some keyword := by
  have letters : ∀ keyword ∈ Keyword.all, keyword.spelling.toList.head?.any startsWord = true ∧
      keyword.spelling.toList.tail.all continuesWord = true := by decide +kernel
  obtain ⟨starts, continues⟩ := letters keyword keyword.mem_all
  cases spelled : keyword.spelling.toList with
  | nil => simp [spelled] at starts
  | cons first text =>
    rw [spelled] at starts continues
    exact ⟨first, text, rfl, starts, continues, keyword.ofWord?_spelling⟩

/-- Whether a character can stand in a word does not depend on the case of a letter. -/
theorem isWord_of_toUpper (c : Char) :
    (startsWord c.toUpper = true → startsWord c = true) ∧
      (continuesWord c.toUpper = true → continuesWord c = true) := by
  by_cases lower : 'a'.val ≤ c.val ∧ c.val ≤ 'z'.val
  · have letters : ∀ n ∈ List.range' 97 26, startsWord (Char.ofNat n) = true := by decide
    have range : 97 ≤ c.toNat ∧ c.toNat ≤ 122 :=
      ⟨UInt32.le_iff_toNat_le.mp lower.1, UInt32.le_iff_toNat_le.mp lower.2⟩
    have starts : startsWord c = true := by
      rw [← Char.ofNat_toNat c]
      exact letters _ (List.mem_range'_1.mpr (by omega))
    exact ⟨fun _ => starts, fun _ => continuesWord_of_startsWord starts⟩
  · have same : c.toUpper = c := dif_neg lower
    rw [same]
    exact ⟨id, id⟩

/-- A text is a word if it is one in upper case. -/
theorem exists_word_of_toUpper {text : String} {first : Char} {rest : List Char}
    (written : text.toUpper.toList = first :: rest) (starts : startsWord first = true)
    (continues : rest.all continuesWord = true) :
    ∃ first rest, text.toList = first :: rest ∧ startsWord first = true ∧
      rest.all continuesWord = true := by
  rw [String.toUpper, String.toList_map] at written
  obtain ⟨c, tail, split, rfl, rfl⟩ := List.map_eq_cons_iff.mp written
  refine ⟨c, tail, split, (isWord_of_toUpper c).1 starts, List.all_eq_true.mpr fun d mem => ?_⟩
  exact (isWord_of_toUpper d).2 (List.all_eq_true.mp continues _ (List.mem_map_of_mem mem))

/-- What is recognized as a reserved word is a word. -/
theorem Keyword.isWord_of_ofWord? {text : String} {keyword : Keyword}
    (h : Keyword.ofWord? text = some keyword) :
    ∃ first rest, text.toList = first :: rest ∧ startsWord first = true ∧
      rest.all continuesWord = true := by
  have same : keyword.spelling = text.toUpper := by
    have found := List.find?_some h
    simpa using found
  obtain ⟨first, rest, written, starts, continues, -⟩ := keyword.isWord
  exact exists_word_of_toUpper (same ▸ written) starts continues

/-! ### Quoted texts -/

/-- A text with doubled quotes is closed by the quote behind it. -/
theorem closeQuote_double {quote : Char} (text : List Char) {rest : List Char}
    (stop : rest.head? ≠ some quote) :
    closeQuote quote (double quote text ++ quote :: rest) =
      some (double quote text ++ [quote], rest) := by
  induction text with
  | nil =>
    cases rest with
    | nil => simp [closeQuote]
    | cons d rest =>
      have hd : d ≠ quote := fun h => stop (congrArg some h)
      simp [closeQuote, hd]
  | cons c text ih =>
    by_cases hc : c = quote
    · simp [double, hc, closeQuote, ih]
    · simp only [double, if_neg hc]
      cases written : double quote text ++ quote :: rest with
      | nil => simp at written
      | cons d tail =>
        rw [List.cons_append, written, closeQuote, if_neg hc, ← written, ih]
        rfl

/-- A string literal is scanned up to its closing quote. -/
theorem scanToken_string (value : String) {rest : List Char} (stop : rest.head? ≠ some '\'') :
    scanToken ((quoted '\'' value).toList ++ rest) =
      ⟨(quoted '\'' value).toList, rest, .ok .string⟩ := by
  have written : (quoted '\'' value).toList = '\'' :: (double '\'' value.toList ++ ['\'']) := by
    simp [quoted]
  rw [written, List.cons_append, List.append_assoc]
  change scanString (double '\'' value.toList ++ '\'' :: rest) = _
  rw [scanString, closeQuote_double _ stop]

/-- A delimited identifier is scanned up to its closing quote. -/
theorem scanToken_delimited {name : String} (nonempty : name ≠ "") {rest : List Char}
    (stop : rest.head? ≠ some '"') :
    scanToken ((quoted '"' name).toList ++ rest) =
      ⟨(quoted '"' name).toList, rest, .ok .delimitedIdentifier⟩ := by
  have written : (quoted '"' name).toList = '"' :: (double '"' name.toList ++ ['"']) := by
    simp [quoted]
  have body : double '"' name.toList ++ ['"'] ≠ ['"'] := by
    cases letters : name.toList with
    | nil => exact absurd (String.toList_eq_nil_iff.mp letters) nonempty
    | cons c text =>
      by_cases hc : c = '"' <;> simp [double, hc]
  rw [written, List.cons_append, List.append_assoc]
  change scanDelimited (double '"' name.toList ++ '"' :: rest) = _
  rw [scanDelimited, closeQuote_double _ stop]
  simp only [if_neg body]

/-! ### Numbers -/

/-- A run of digits ends where a text without a digit in front begins. -/
theorem spanDigits_append_stop {digits rest : List Char} (all : ∀ c ∈ digits, c.isDigit = true)
    (stop : ∀ c ∈ rest.head?, c.isDigit = false) :
    spanDigits (digits ++ rest) = (digits, rest) := by
  obtain ⟨taken, left⟩ := takeWhile_append_stop (List.all_eq_true.mpr all) stop
  rw [spanDigits, taken, left]

/-- A point with digits behind it, or nothing. -/
def IsFraction (text : List Char) : Prop :=
  text = [] ∨ ∃ digits, digits ≠ [] ∧ (∀ c ∈ digits, c.isDigit = true) ∧ text = '.' :: digits

/-- The mark of an exponent with digits behind it, perhaps after a minus sign, or nothing. -/
def IsExponent (text : List Char) : Prop :=
  text = [] ∨ ∃ sign digits, (sign = [] ∨ sign = ['-']) ∧ digits ≠ [] ∧
    (∀ c ∈ digits, c.isDigit = true) ∧ text = 'e' :: (sign ++ digits)

/-- Digits with a fraction or an exponent behind them. -/
def IsReal (text : List Char) : Prop :=
  ∃ whole fraction exponent, whole ≠ [] ∧ (∀ c ∈ whole, c.isDigit = true) ∧
    IsFraction fraction ∧ IsExponent exponent ∧ ¬(fraction = [] ∧ exponent = []) ∧
      text = whole ++ (fraction ++ exponent)

/-- The text of a real number starts with a digit. -/
theorem IsReal.exists_digit {text : List Char} (h : IsReal text) :
    ∃ first rest, text = first :: rest ∧ first.isDigit = true := by
  obtain ⟨whole, fraction, exponent, nonempty, digits, _, _, _, rfl⟩ := h
  obtain ⟨first, whole, rfl⟩ := List.exists_cons_of_ne_nil nonempty
  exact ⟨first, whole ++ (fraction ++ exponent), rfl, digits first List.mem_cons_self⟩

/-- A fraction is split off. -/
theorem IsFraction.split {fraction rest : List Char} (h : IsFraction fraction)
    (digit : ∀ c ∈ rest.head?, c.isDigit = false) (point : rest.head? ≠ some '.') :
    splitFraction (fraction ++ rest) = (fraction, rest) := by
  obtain rfl | ⟨digits, nonempty, all, rfl⟩ := h
  · cases rest with
    | nil => rfl
    | cons c rest =>
      have hc : c ≠ '.' := fun h => point (congrArg some h)
      unfold splitFraction
      split
      · exact absurd (List.cons.inj ‹_›).1 hc
      · rfl
  · cases digits with
    | nil => exact absurd rfl nonempty
    | cons d digits =>
      have hd : d.isDigit = true := all d List.mem_cons_self
      have run := spanDigits_append_stop all digit
      rw [List.cons_append] at run
      simp [splitFraction, hd, run]

/-- What an exponent begins with is neither a digit nor a point, if nothing else is behind it. -/
theorem IsExponent.head {exponent rest : List Char} (h : IsExponent exponent) (apart : Apart rest) :
    ∀ c ∈ (exponent ++ rest).head?, c ∈ ['e', ' ', ')', ','] := by
  obtain rfl | ⟨sign, digits, _, _, _, rfl⟩ := h
  · exact fun c hc => List.mem_cons_of_mem _ (apart c hc)
  · intro c hc
    exact Option.some.inj hc ▸ List.mem_cons_self

/-- Nothing behind a number marks an exponent. -/
theorem Apart.splitExponentMark {rest : List Char} (apart : Apart rest) :
    splitExponentMark rest = ([], rest) := by
  cases rest with
  | nil => rfl
  | cons c rest =>
    have noMark : ∀ c ∈ [' ', ')', ','], ¬(c = 'e' ∨ c = 'E') := by simp
    simp [Adql.splitExponentMark, noMark c (apart c rfl)]

/-- The mark of an exponent is split off with its sign. -/
theorem splitExponentMark_sign {sign digits : List Char} (isSign : sign = [] ∨ sign = ['-'])
    (nonempty : digits ≠ []) (all : ∀ c ∈ digits, c.isDigit = true) (rest : List Char) :
    splitExponentMark ('e' :: (sign ++ (digits ++ rest))) = ('e' :: sign, digits ++ rest) := by
  obtain rfl | rfl := isSign
  · cases digits with
    | nil => exact absurd rfl nonempty
    | cons d digits =>
      have hd : d.isDigit = true := all d List.mem_cons_self
      have plus : d ≠ '+' := by rintro rfl; exact absurd hd (by decide)
      have minus : d ≠ '-' := by rintro rfl; exact absurd hd (by decide)
      simp [splitExponentMark, plus, minus]
  · rfl

/-- Digits with a fraction or an exponent are scanned as a real number, if they have a value. -/
theorem IsReal.scanDecimal {text rest : List Char} (h : IsReal text) (apart : Apart rest) :
    scanDecimal (text ++ rest) =
      scanNumeral text rest ((readMagnitude? text).any Double.isFinite) .real := by
  obtain ⟨whole, fraction, exponent, _, digits, isFraction, isExponent, real, rfl⟩ := h
  have behind := isExponent.head apart
  have noDigit : ∀ c ∈ ['e', ' ', ')', ','], c.isDigit = false := by simp [Char.isDigit]
  have noPoint : ∀ c ∈ ['e', ' ', ')', ','], c ≠ '.' := by simp
  have fractionStops : ∀ c ∈ (fraction ++ (exponent ++ rest)).head?, c.isDigit = false := by
    obtain rfl | ⟨_, _, _, rfl⟩ := isFraction
    · exact fun c hc => noDigit c (behind c hc)
    · intro c hc
      exact Option.some.inj hc ▸ rfl
  have first := spanDigits_append_stop digits fractionStops
  have second := isFraction.split (fun c hc => noDigit c (behind c hc))
    (fun h => noPoint '.' (behind '.' h) rfl)
  have apartDigit : ∀ c ∈ rest.head?, c.isDigit = false :=
    fun c hc => noDigit c (List.mem_cons_of_mem _ (apart c hc))
  have assoc : whole ++ (fraction ++ exponent) ++ rest =
      whole ++ (fraction ++ (exponent ++ rest)) := by
    simp only [List.append_assoc]
  rw [assoc, Adql.scanDecimal]
  simp only [first, second]
  obtain rfl | ⟨sign, places, isSign, nonempty, all, rfl⟩ := isExponent
  · have some : fraction.isEmpty = false := by simpa using real
    simp [apart.splitExponentMark, some]
  · have mark := splitExponentMark_sign isSign nonempty all rest
    have fourth := spanDigits_append_stop all apartDigit
    simp [mark, fourth]

/-- A digit is its own lower case. -/
theorem toLower_of_isDigit {c : Char} (h : c.isDigit = true) : c.toLower = c := by
  have range : 48 ≤ c.toNat ∧ c.toNat ≤ 57 := by
    simpa [Char.isDigit, UInt32.le_iff_toNat_le] using h
  have upper : ¬(c.val ≥ 'A'.val ∧ c.val ≤ 'Z'.val) := by
    simp only [ge_iff_le, UInt32.le_iff_toNat_le]
    have : c.val.toNat = c.toNat := rfl
    have : 'A'.val.toNat = 65 := rfl
    omega
  exact dif_neg upper

/-- A number that starts with a digit or a point has neither a sign nor a name. -/
theorem readReal?_eq {text : String} {c : Char} {rest : List Char} (h : text.toList = c :: rest)
    (start : c.isDigit = true ∨ c = '.') : readReal? text = readMagnitude? text.toList := by
  have sign : splitSign text.toList = (false, text.toList) := by rw [h, splitSign_cons start]
  have lower : c.toLower = c := by
    obtain digit | rfl := start
    · exact toLower_of_isDigit digit
    · rfl
  have name : ∀ word ∈ ["inf", "infinity", "nan"],
      String.ofList (text.toList.map Char.toLower) ≠ word := by
    have letters : ∀ word ∈ ["inf", "infinity", "nan"], ∀ d ∈ word.toList.head?,
        ¬(d.isDigit = true ∨ d = '.') := by
      simp [Char.isDigit]
    intro word mem same
    have head := congrArg (fun word => word.toList.head?) same
    rw [h, String.toList_ofList, List.map_cons, lower, List.head?_cons] at head
    exact letters word mem c head.symm start
  rw [readReal?, sign]
  simp only [Bool.false_eq_true, ↓reduceIte, Option.map_id']
  split
  · next same => exact absurd same (name "inf" (by decide))
  · next same => exact absurd same (name "infinity" (by decide))
  · next same => exact absurd same (name "nan" (by decide))
  · rfl

/-- A numeral without a base mark is scanned as a decimal numeral. -/
theorem scanToken_decimal {first : Char} {text rest : List Char} (digit : first.isDigit = true)
    (plain : ∀ c ∈ text, c ≠ 'x' ∧ c ≠ 'X') (apart : Apart rest) :
    scanToken (first :: text ++ rest) = scanDecimal (first :: text ++ rest) := by
  have single : first ≠ '\'' := by rintro rfl; exact absurd digit (by decide)
  have double : first ≠ '"' := by rintro rfl; exact absurd digit (by decide)
  have second : ∀ c ∈ (text ++ rest).head?, c ≠ 'x' ∧ c ≠ 'X' := by
    intro c hc
    cases text with
    | nil =>
      have others : ∀ c ∈ [' ', ')', ','], c ≠ 'x' ∧ c ≠ 'X' := by simp
      exact others c (apart c hc)
    | cons d text =>
      obtain rfl : d = c := Option.some.inj hc
      exact plain d List.mem_cons_self
  have number : scanToken (first :: text ++ rest) = scanNumber (first :: text ++ rest) := by
    unfold scanToken
    split
    · contradiction
    · exact absurd (List.cons.inj ‹_›).1 single
    · exact absurd (List.cons.inj ‹_›).1 double
    · next c _ _ _ same =>
      obtain ⟨rfl, rfl⟩ := List.cons.inj same
      simp [digit]
  rw [number]
  unfold scanNumber
  split
  · next same => exact absurd rfl (second 'x' (congrArg List.head? (List.cons.inj same).2)).1
  · next same => exact absurd rfl (second 'X' (congrArg List.head? (List.cons.inj same).2)).2
  · rfl

/-- Behind a number, no word goes on. -/
theorem Apart.goesOn {rest : List Char} (apart : Apart rest) : goesOn rest = false := by
  cases rest with
  | nil => rfl
  | cons c rest => exact apart.endsName.not_continuesWord c rfl

/-- The digits of a natural number are scanned as an integer, which has a value if it is not too
large. -/
theorem scanToken_repr {value : Nat} {rest : List Char} (apart : Apart rest) :
    scanToken (value.repr.toList ++ rest) =
      scanNumeral value.repr.toList rest (value ≤ maxInteger) .integer := by
  have digits : ∀ c ∈ value.repr.toList, c.isDigit = true := by
    rw [Nat.toList_repr]
    exact fun c hc => isDigit_of_mem_toDigits hc
  have number : readNatural? 10 value.repr.toList = some value := by
    rw [Nat.toList_repr]
    exact readNatural?_toDigits value
  have noPoint : rest.head? ≠ some '.' := fun h => absurd (apart '.' h) (by decide)
  have run := spanDigits_append_stop digits apart.noDigit
  have fraction := IsFraction.split (Or.inl rfl : IsFraction []) apart.noDigit noPoint
  have decimal : scanToken (value.repr.toList ++ rest) = scanDecimal (value.repr.toList ++ rest) := by
    cases written : value.repr.toList with
    | nil => simp [written, readNatural?] at number
    | cons first text =>
      rw [written] at digits
      refine scanToken_decimal (digits first List.mem_cons_self) (fun c hc => ?_) apart
      have digit := digits c (List.mem_cons_of_mem _ hc)
      constructor <;> rintro rfl <;> exact absurd digit (by decide)
  generalize value.repr.toList = text at digits number run decimal ⊢
  rw [List.nil_append] at fraction
  simp [decimal, scanDecimal, run, fraction, apart.splitExponentMark, number]

/-- A natural number is scanned if it is not too large. -/
theorem scanToken_integer {value : Nat} (small : value ≤ maxInteger) {rest : List Char}
    (apart : Apart rest) :
    scanToken (value.repr.toList ++ rest) = ⟨value.repr.toList, rest, .ok .integer⟩ := by
  rw [scanToken_repr apart, scanNumeral, if_pos (by simp [small, apart.goesOn])]

/-- A real number is scanned if it has a finite value. -/
theorem scanToken_real {text : String} {value : Double} (isReal : IsReal text.toList)
    (read : readReal? text = some value) (finite : value.isFinite = true) {rest : List Char}
    (apart : Apart rest) :
    scanToken (text.toList ++ rest) = ⟨text.toList, rest, .ok .real⟩ := by
  have whole := isReal.scanDecimal apart
  obtain ⟨digits, fraction, exponent, nonempty, all, isFraction, isExponent, _, written⟩ := isReal
  cases digits with
  | nil => exact absurd rfl nonempty
  | cons first digits =>
    have digit : first.isDigit = true := all first List.mem_cons_self
    have plain : ∀ c ∈ digits ++ (fraction ++ exponent), c ≠ 'x' ∧ c ≠ 'X' := by
      have ofDigit : ∀ c, c.isDigit = true → c ≠ 'x' ∧ c ≠ 'X' := by
        intro c h
        constructor <;> rintro rfl <;> exact absurd h (by decide)
      simp only [List.mem_append]
      rintro c (h | h | h)
      · exact ofDigit c (all c (List.mem_cons_of_mem _ h))
      · obtain rfl | ⟨places, _, digits, rfl⟩ := isFraction
        · exact absurd h (List.not_mem_nil)
        · obtain rfl | h := List.mem_cons.mp h
          · decide
          · exact ofDigit c (digits c h)
      · obtain rfl | ⟨sign, places, isSign, _, digits, rfl⟩ := isExponent
        · exact absurd h (List.not_mem_nil)
        · obtain rfl | h := List.mem_cons.mp h
          · decide
          · obtain h | h := List.mem_append.mp h
            · obtain rfl | rfl := isSign
              · exact absurd h (List.not_mem_nil)
              · rw [List.mem_singleton.mp h]
                decide
            · exact ofDigit c (digits c h)
    rw [readReal?_eq written (Or.inl digit)] at read
    have decimal := scanToken_decimal digit plain apart
    rw [written] at read whole ⊢
    rw [List.cons_append] at read whole ⊢
    rw [decimal, whole, scanNumeral, read, apart.goesOn]
    simp [finite]

/-! ### The layout of real numbers -/

/-- Zeros are digits. -/
theorem isDigit_of_mem_zeros {count : Nat} {c : Char} (h : c ∈ zeros count) : c.isDigit = true := by
  rw [(List.mem_replicate.mp h).2]
  rfl

/-- The digit that is left of zeros is a digit. -/
theorem isDigit_of_mem_zero {c : Char} (h : c ∈ ['0']) : c.isDigit = true := by
  rw [List.mem_singleton.mp h]
  rfl

/-- Without the zeros at their end, there still is a digit. -/
theorem withoutTrailingZeros_ne_nil (digits : List Char) : withoutTrailingZeros digits ≠ [] := by
  unfold withoutTrailingZeros
  split
  · simp
  · assumption

/-- Without the zeros at their end, digits are digits. -/
theorem isDigit_of_mem_withoutTrailingZeros {digits : List Char}
    (all : ∀ c ∈ digits, c.isDigit = true) :
    ∀ c ∈ withoutTrailingZeros digits, c.isDigit = true := by
  unfold withoutTrailingZeros
  split
  · exact fun c hc => isDigit_of_mem_zero hc
  · intro c hc
    have kept := (List.dropWhile_suffix (· == '0')).subset (List.mem_reverse.mp hc)
    exact all c (List.mem_reverse.mp kept)

/-- Where positive exponents have no sign, a number is written as digits with a fraction or an
exponent. -/
theorem Layout.isReal_write {layout : Layout} (unsigned : layout.signedExponent = false)
    {digits : List Char} (nonempty : digits ≠ []) (all : ∀ c ∈ digits, c.isDigit = true)
    (place : Int) : IsReal (layout.write digits place) := by
  have zero : ∀ c ∈ ['0'], c.isDigit = true := fun c hc => isDigit_of_mem_zero hc
  unfold Layout.write
  split
  · split
    · refine ⟨['0'], '.' :: (zeros ((-place).toNat - 1) ++ digits), [], by simp, zero,
        Or.inr ⟨_, by simp [nonempty], fun c hc => ?_, rfl⟩, Or.inl rfl, by simp, by simp⟩
      exact (List.mem_append.mp hc).elim isDigit_of_mem_zeros (all c)
    · have whole : ∀ c ∈ digits.take (place.toNat + 1) ++ zeros (place.toNat + 1 - digits.length),
          c.isDigit = true := fun c hc =>
        (List.mem_append.mp hc).elim (fun h => all c (List.mem_of_mem_take h)) isDigit_of_mem_zeros
      refine ⟨_, '.' :: (if (digits.drop (place.toNat + 1)).isEmpty then ['0']
        else digits.drop (place.toNat + 1)), [], by simp [nonempty], whole,
        Or.inr ⟨_, ?_, ?_, rfl⟩, Or.inl rfl, by simp, (List.append_nil _).symm ▸ rfl⟩
      · split
        · simp
        · next some => simpa using some
      · split
        · exact zero
        · exact fun c hc => all c (List.mem_of_mem_drop hc)
  · have exponent : IsExponent ('e' :: ((if place < 0 then ['-'] else
        if layout.signedExponent then ['+'] else []) ++ Nat.toDigits 10 place.natAbs)) := by
      refine Or.inr ⟨_, _, ?_, Nat.toDigits_ne_nil, fun c hc => isDigit_of_mem_toDigits hc, rfl⟩
      rw [unsigned]
      split
      · exact Or.inr rfl
      · exact Or.inl rfl
    cases digits with
    | nil => exact absurd rfl nonempty
    | cons first rest =>
      have one : ∀ c ∈ [first], c.isDigit = true :=
        fun c hc => all c (List.mem_singleton.mp hc ▸ List.mem_cons_self)
      cases rest with
      | nil => exact ⟨[first], [], _, by simp, one, Or.inl rfl, exponent, by simp, rfl⟩
      | cons second rest =>
        refine ⟨[first], '.' :: second :: rest, _, by simp, one, Or.inr ⟨second :: rest, by simp,
          fun c hc => all c (List.mem_cons_of_mem _ hc), rfl⟩, exponent, by simp, ?_⟩
        simp

/-- What is finite is zero or has a mantissa. -/
theorem magnitude_of_isFinite {value : Double} (finite : value.isFinite = true) :
    magnitude value = .zero ∨ ∃ binary, magnitude value = .finite binary := by
  have exponent : value.exponent ≠ 2047 := by simpa [Double.isFinite] using finite
  rw [magnitude, if_neg exponent]
  split
  · split
    · exact Or.inl rfl
    · exact Or.inr ⟨_, rfl⟩
  · exact Or.inr ⟨_, rfl⟩

/-- What is finite is a number. -/
theorem magnitude_ne_of_isFinite {value : Double} (finite : value.isFinite = true) :
    magnitude value ≠ .notANumber := by
  intro none
  obtain zero | ⟨binary, some⟩ := magnitude_of_isFinite finite
  · cases none.symm.trans zero
  · cases none.symm.trans some

/-- A finite number that is not negative is written as digits with a fraction or an exponent. -/
theorem Layout.isReal_text {value : Double} (positive : value.isNegative = false)
    (finite : value.isFinite = true) : IsReal (Layout.query.text value).toList := by
  unfold Layout.text
  simp only [positive, Bool.false_eq_true, ↓reduceIte]
  obtain zero | ⟨binary, some⟩ := magnitude_of_isFinite finite
  · simp only [zero]
    have zero : ∀ c ∈ ['0'], c.isDigit = true := fun c hc => isDigit_of_mem_zero hc
    exact ⟨['0'], ['.', '0'], [], by simp, zero, Or.inr ⟨['0'], by simp, zero, rfl⟩,
      Or.inl rfl, by simp, rfl⟩
  · simp only [some, String.toList_append, String.toList_ofList]
    refine Layout.isReal_write rfl (withoutTrailingZeros_ne_nil _) ?_ _
    exact isDigit_of_mem_withoutTrailingZeros fun c hc => isDigit_of_mem_toDigits hc

/-! ### Signs -/

/-- Negation changes the highest bit alone. -/
theorem Double.toNat_neg (x : Double) :
    (-x).bits.toNat % signBit.toNat = x.bits.toNat % signBit.toNat ∧
      (-x).bits.toNat / signBit.toNat = 1 - x.bits.toNat / signBit.toNat := by
  have sign : signBit.toNat = 2 ^ 63 := rfl
  have bits : (-x).bits.toNat = x.bits.toNat ^^^ 2 ^ 63 := by
    rw [← sign, ← UInt64.toNat_xor]
    rfl
  have small : x.bits.toNat < 2 ^ 64 := x.bits.toNat_lt
  have top : x.bits.toNat / 2 ^ 63 = 0 ∨ x.bits.toNat / 2 ^ 63 = 1 := by omega
  rw [sign, bits, Nat.xor_mod_two_pow, Nat.xor_div_two_pow, Nat.mod_self, Nat.xor_zero,
    Nat.div_self (by decide)]
  rcases top with top | top <;> rw [top] <;> exact ⟨rfl, rfl⟩

/-- Negation turns the sign around. -/
theorem Double.isNegative_neg (x : Double) : (-x).isNegative = !x.isNegative := by
  have sign : signBit.toNat = 2 ^ 63 := rfl
  have small : x.bits.toNat < 2 ^ 64 := x.bits.toNat_lt
  obtain ⟨-, top⟩ := x.toNat_neg
  rw [sign] at top
  simp only [isNegative, UInt64.le_iff_toNat_le, sign, ← decide_not, decide_eq_decide]
  omega

/-- Negation keeps the exponent. -/
theorem Double.exponent_neg (x : Double) : (-x).exponent = x.exponent := by
  obtain ⟨low, -⟩ := x.toNat_neg
  have sign : signBit.toNat = 2 ^ 63 := rfl
  have unit : leadingBit = 2 ^ 52 := rfl
  rw [exponent, exponent, unit]
  rw [sign] at low
  omega

/-- Negation keeps the fraction. -/
theorem Double.fraction_neg (x : Double) : (-x).fraction = x.fraction := by
  obtain ⟨low, -⟩ := x.toNat_neg
  have sign : signBit.toNat = 2 ^ 63 := rfl
  have unit : leadingBit = 2 ^ 52 := rfl
  rw [fraction, fraction, unit]
  rw [sign] at low
  omega

/-- Negation keeps the magnitude. -/
theorem Double.magnitude_neg (x : Double) : magnitude (-x) = magnitude x := by
  rw [magnitude, magnitude, x.exponent_neg, x.fraction_neg]

/-- A negative number is written with a minus sign. -/
theorem Layout.text_of_isNegative {layout : Layout} {value : Double}
    (negative : value.isNegative = true) (number : magnitude value ≠ .notANumber) :
    layout.text value = "-" ++ layout.text (-value) := by
  rw [Layout.text, Layout.text, value.isNegative_neg, value.magnitude_neg, negative]
  cases found : magnitude value with
  | notANumber => exact absurd found number
  | infinite => simp
  | zero => simp
  | finite binary => simp

/-- What is written as a real number is a finite number. -/
theorem Layout.isFinite_of_isReal {layout : Layout} {value : Double}
    (h : IsReal (layout.text value).toList) : value.isFinite = true := by
  obtain ⟨first, rest, written, digit⟩ := h.exists_digit
  have letters : ∀ text ∈ ["NaN", "inf", "-inf"], ∀ c ∈ text.toList.head?, c.isDigit = false := by
    simp [Char.isDigit]
  have word : layout.text value ∉ ["NaN", "inf", "-inf"] := fun mem => by
    have noDigit := letters _ mem first (by rw [written]; rfl)
    rw [digit] at noDigit
    cases noDigit
  refine Decidable.byContradiction fun infinite => ?_
  have exponent : value.exponent = 2047 := by simpa [Double.isFinite] using infinite
  refine word ?_
  rw [Layout.text, magnitude, if_pos exponent]
  by_cases fraction : value.fraction = 0
  · rw [if_pos fraction]
    cases value.isNegative with
    | false => simp
    | true => simp
  · rw [if_neg fraction]
    exact List.mem_cons_self

end Adql
