import Adql.Proofs.RoundTrip.Sources
import Adql.Proofs.Shape.Tree

/-!
# Tokens of texts

A token that was cut from a text is more than a kind with any text: an integer has a value, and the
value of a literal is neither negative nor infinite (`Token.Genuine`).  The tokens of a text stand
in its order, and the end marker is the last one and no other.
-/

namespace Adql

open Adql.Text Adql.Decimal

/-! ### Numbers -/

/-- A natural number without a sign is read as an integer. -/
theorem readInteger?_of_unsigned {base value : Nat} {digits : List Char}
    (unsigned : ∀ c ∈ digits, c ≠ '-' ∧ c ≠ '+') (read : readNatural? base digits = some value) :
    readInteger? base digits = some (value : Int) := by
  have plain : splitSign digits = (false, digits) := by
    unfold splitSign
    split
    · exact absurd rfl (unsigned '-' List.mem_cons_self).1
    · exact absurd rfl (unsigned '+' List.mem_cons_self).2
    · rfl
  simp [readInteger?, plain, read]

/-- A natural number that is no larger than the largest integer literal is one. -/
theorem int64?_of_le {value : Nat} (bound : value ≤ maxInteger) :
    ∃ integer, int64? (value : Int) = some integer := by
  refine ⟨_, if_pos ⟨?_, ?_⟩⟩
  · rw [Int64.toInt_minValue]
    omega
  · rw [Int64.toInt_maxValue]
    simp only [maxInteger] at bound
    omega

/-- A numeral is scanned only if it denotes a value. -/
theorem hasValue_of_scanNumeral {used rest : List Char} {hasValue : Bool} {kind kind' : TokenKind}
    (h : (scanNumeral used rest hasValue kind).outcome = .ok kind') : hasValue = true := by
  unfold scanNumeral at h
  split at h
  · next accepted => exact (Bool.and_eq_true _ _ ▸ accepted).1
  · cases h

/-- A hexadecimal integer that was scanned has a value. -/
theorem readInteger?_of_scanHexadecimal {mark rest : List Char} {kind : TokenKind}
    (h : (scanHexadecimal mark rest).outcome = .ok kind) :
    (scanHexadecimal mark rest).used = mark ++ rest.takeWhile isHexDigit ∧
      ∃ value, value ≤ maxInteger ∧
        readInteger? 16 (rest.takeWhile isHexDigit) = some (value : Int) := by
  obtain ⟨value, read, bound⟩ := (Option.any_eq_true _ _).mp (hasValue_of_scanNumeral h)
  refine ⟨(scanNumeral_ok h).2, value, of_decide_eq_true bound, ?_⟩
  refine readInteger?_of_unsigned (fun c hc => ?_) read
  have digit := List.all_eq_true.mp List.all_takeWhile c hc
  constructor
  · rintro rfl
    exact absurd digit (by decide)
  · rintro rfl
    exact absurd digit (by decide)

/-- A decimal integer that was scanned has a value. -/
theorem readInteger?_of_scanDecimal {text : List Char}
    (h : (scanDecimal text).outcome = .ok .integer) :
    (scanDecimal text).used = text.takeWhile Char.isDigit ∧
      ∃ value, value ≤ maxInteger ∧
        readInteger? 10 (text.takeWhile Char.isDigit) = some (value : Int) := by
  unfold scanDecimal at h ⊢
  dsimp only at h ⊢
  split at h
  · next noMark =>
    rw [if_pos noMark]
    split at h
    · next noFraction =>
      rw [if_pos noFraction]
      have alone : (spanDigits text).1 ++ (splitFraction (spanDigits text).2).1 =
          text.takeWhile Char.isDigit := by
        rw [List.isEmpty_iff.mp noFraction, List.append_nil, spanDigits]
      obtain ⟨value, read, bound⟩ := (Option.any_eq_true _ _).mp (hasValue_of_scanNumeral h)
      rw [alone] at read
      refine ⟨(scanNumeral_ok h).2.trans alone, value, of_decide_eq_true bound, ?_⟩
      refine readInteger?_of_unsigned (fun c hc => ?_) read
      have digit := List.all_eq_true.mp List.all_takeWhile c hc
      constructor
      · rintro rfl
        exact absurd digit (by decide)
      · rintro rfl
        exact absurd digit (by decide)
    · cases (scanNumeral_ok h).1
  · cases (scanNumeral_ok h).1

/-- An integer that was scanned has a value. -/
theorem integer?_of_scanNumber {text : List Char}
    (h : (scanNumber text).outcome = .ok .integer) {token : Token}
    (spelled : token.lexeme.toList = (scanNumber text).used) :
    ∃ value, token.integer? = some value := by
  unfold Token.integer?
  rw [spelled]
  unfold scanNumber at h ⊢
  split at h
  · next rest =>
    obtain ⟨used, value, bound, read⟩ := readInteger?_of_scanHexadecimal h
    obtain ⟨integer, same⟩ := int64?_of_le bound
    exact ⟨integer, by simp [used, read, same]⟩
  · next rest =>
    obtain ⟨used, value, bound, read⟩ := readInteger?_of_scanHexadecimal h
    obtain ⟨integer, same⟩ := int64?_of_le bound
    exact ⟨integer, by simp [used, read, same]⟩
  · obtain ⟨used, value, bound, read⟩ := readInteger?_of_scanDecimal h
    obtain ⟨integer, same⟩ := int64?_of_le bound
    refine ⟨integer, ?_⟩
    rw [used]
    split
    · next digits split =>
      have digit : 'x' ∈ text.takeWhile Char.isDigit := by simp [split]
      exact absurd (List.all_eq_true.mp List.all_takeWhile _ digit) (by decide)
    · next digits split =>
      have digit : 'X' ∈ text.takeWhile Char.isDigit := by simp [split]
      exact absurd (List.all_eq_true.mp List.all_takeWhile _ digit) (by decide)
    · rw [read, Option.bind_some, same]

/-- A real number that was scanned has a finite magnitude. -/
theorem readMagnitude?_of_scanDecimal {text : List Char}
    (h : (scanDecimal text).outcome = .ok .real) :
    ∃ value, readMagnitude? (scanDecimal text).used = some value ∧ value.isFinite = true := by
  have known {used rest : List Char}
      (h : (scanNumeral used rest ((readMagnitude? used).any Double.isFinite) .real).outcome =
        .ok .real) :
      ∃ value, readMagnitude? (scanNumeral used rest
        ((readMagnitude? used).any Double.isFinite) .real).used = some value ∧
        value.isFinite = true := by
    rw [(scanNumeral_ok h).2]
    exact (Option.any_eq_true _ _).mp (hasValue_of_scanNumeral h)
  unfold scanDecimal at h ⊢
  dsimp only at h ⊢
  split at h
  · next noMark =>
    rw [if_pos noMark]
    split at h
    · cases (scanNumeral_ok h).1
    · next fraction =>
      rw [if_neg fraction]
      exact known h
  · next mark =>
    rw [if_neg mark]
    exact known h

/-- A real number that was scanned has a value. -/
theorem real?_of_scanNumber {c : Char} {rest : List Char}
    (start : (c.isDigit || startsFraction (c :: rest)) = true)
    (h : (scanNumber (c :: rest)).outcome = .ok .real) {token : Token}
    (spelled : token.lexeme.toList = (scanNumber (c :: rest)).used) :
    ∃ value, token.real? = some value := by
  obtain ⟨tail, used, unsigned⟩ := scanNumber_used_head start
  have magnitude : ∃ value, readMagnitude? token.lexeme.toList = some value ∧
      value.isFinite = true := by
    rw [spelled]
    unfold scanNumber at h ⊢
    split at h
    · cases (scanNumeral_ok h).1
    · cases (scanNumeral_ok h).1
    · exact readMagnitude?_of_scanDecimal h
  obtain ⟨value, read, finite⟩ := magnitude
  refine ⟨value, ?_⟩
  rw [Token.real?, readReal?_eq (spelled.trans used) unsigned, read, Option.filter_some,
    if_pos finite]

/-! ### Single tokens -/

/-- The token is spelled like a token of a text: an integer is a number of rows, a real number has a
value, and the number that a literal stands for is neither negative nor infinite. -/
structure Token.Genuine (token : Token) : Prop where
  /-- An integer is a number of rows. -/
  counts : token.kind = .integer → ∃ count, token.rowCount? = some count
  /-- A real number has a value. -/
  reals : token.kind = .real → ∃ value, token.real? = some value
  /-- A literal has no sign, and it is finite. -/
  literal : ∀ value, token.literal? = some value → value.isNegative = false ∧ value.isFinite = true

namespace Token

variable {token : Token}

/-- Tokens other than numbers are spelled like tokens of texts. -/
theorem genuine_of_kind (integer : token.kind ≠ .integer) (real : token.kind ≠ .real) :
    token.Genuine := by
  refine ⟨fun h => absurd h integer, fun h => absurd h real, fun value h => ?_⟩
  unfold literal? at h
  split at h
  · contradiction
  · contradiction
  · cases h; exact ⟨rfl, rfl⟩
  · cases h; exact ⟨rfl, rfl⟩
  · cases h; exact ⟨rfl, rfl⟩
  · cases h; exact ⟨rfl, rfl⟩
  · cases h

/-- A numeral that was scanned is spelled like one. -/
theorem genuine_of_scanNumber {c : Char} {rest : List Char}
    (start : (c.isDigit || startsFraction (c :: rest)) = true)
    (h : (scanNumber (c :: rest)).outcome = .ok token.kind)
    (spelled : token.lexeme.toList = (scanNumber (c :: rest)).used) : token.Genuine := by
  obtain ⟨integer, unsigned⟩ | real := scanNumber_ok h
  · rw [integer] at h
    obtain ⟨value, read⟩ := integer?_of_scanNumber h spelled
    have positive : 0 ≤ value.toInt := nonneg_of_integer? (by rwa [spelled]) read
    have positive : 0 ≤ value := by rwa [Int64.le_iff_toInt_le]
    refine ⟨fun _ => ⟨value.toInt.toNat.toUInt64, ?_⟩,
      fun real => (by cases integer.symm.trans real), fun literal found => ?_⟩
    · rw [rowCount?, read, Option.bind_some, if_pos positive]
    · rw [literal?, integer] at found
      simp only [read, Option.map_some, Option.some.injEq] at found
      subst found
      exact ⟨decide_eq_false (Int64.not_lt.mpr positive), rfl⟩
  · refine ⟨fun integer => (by cases integer.symm.trans real),
      fun _ => real?_of_scanNumber start (real ▸ h) spelled, fun literal found => ?_⟩
    rw [literal?, real] at found
    obtain ⟨value, read, rfl⟩ := Option.map_eq_some_iff.mp found
    obtain ⟨read, finite⟩ := Option.filter_eq_some_iff.mp read
    obtain ⟨tail, used, unsigned⟩ := scanNumber_used_head start
    exact ⟨isNegative_of_readReal? (spelled.trans used) unsigned read, finite⟩

/-- What was scanned is spelled like a token of a text. -/
theorem genuine_of_scanToken {text : List Char} (h : (scanToken text).outcome = .ok token.kind)
    (spelled : token.lexeme.toList = (scanToken text).used) : token.Genuine := by
  have plain {kind : TokenKind} (found : (.ok kind : Except LexFault TokenKind) = .ok token.kind)
      (integer : kind ≠ .integer) (real : kind ≠ .real) : token.Genuine := by
    cases found
    exact genuine_of_kind integer real
  -- both facts are about the same case of the scan
  have scanned := And.intro h spelled
  unfold scanToken at scanned
  split at scanned
  · exact plain scanned.1 nofun nofun
  · have h := scanned.1
    unfold scanString at h
    split at h
    · exact plain h nofun nofun
    · cases h
  · have h := scanned.1
    unfold scanDelimited at h
    split at h
    · dsimp only at h
      split at h
      · cases h
      · exact plain h nofun nofun
    · cases h
  · split at scanned
    · next start => exact genuine_of_scanNumber start scanned.1 scanned.2
    · have h := scanned.1
      split at h
      · unfold scanWord at h
        dsimp only at h
        split at h
        · exact plain h nofun nofun
        · exact plain h nofun nofun
      · unfold scanSymbol at h
        split at h
        case h_23 => cases h
        all_goals exact plain h nofun nofun

end Token

/-! ### Texts -/

namespace Lexer

variable {lexer following : Lexer} {token : Token}

/-- The next token is spelled like a token of a text. -/
theorem genuine_of_next (h : lexer.next = (.ok token, following)) : token.Genuine := by
  unfold next at h
  simp only at h
  split at h
  · cases h
  · obtain ⟨answer, -⟩ := Prod.mk.inj h
    unfold Lexeme.answer at answer
    split at answer
    · next kind accepted =>
      cases answer
      exact Token.genuine_of_scanToken accepted String.toList_ofList
    · cases answer

/-- Behind a character the offset is larger. -/
theorem offset_le_after (place : Position) (c : Char) : place.offset ≤ (place.after c).offset := by
  unfold Position.after
  split
  · exact Nat.le_add_right _ _
  · exact Nat.le_add_right _ _

/-- Behind characters the offset is no smaller. -/
theorem offset_le_advance (place : Position) (text : List Char) :
    place.offset ≤ (place.advance text).offset := by
  induction text generalizing place with
  | nil => exact Nat.le_refl _
  | cons c text ih => exact Nat.le_trans (offset_le_after place c) (ih (place.after c))

/-- Behind a gap the offset is no smaller. -/
theorem offset_le_skipGap (mode : GapMode) (place : Position) (text : List Char) :
    place.offset ≤ (skipGap mode place text).place.offset := by
  fun_induction skipGap mode place text with
  | case1 | case5 | case6 | case9 => exact Nat.le_refl _
  | case2 | case3 | case10 => exact Nat.le_trans (offset_le_advance _ _) ‹_›
  | case4 | case7 | case8 | case11 => exact Nat.le_trans (offset_le_after _ _) ‹_›

/-- The next token starts behind the place of the lexer, and the lexer goes on behind its start. -/
theorem offset_le_next (h : lexer.next = (.ok token, following)) :
    lexer.place.offset ≤ token.span.start ∧ token.span.start ≤ following.place.offset := by
  unfold next at h
  simp only at h
  split at h
  · cases h
  · obtain ⟨answer, rfl⟩ := Prod.mk.inj h
    unfold Lexeme.answer at answer
    split at answer
    · cases answer
      exact ⟨offset_le_skipGap _ _ _, offset_le_advance _ _⟩
    · cases answer

/-- The tokens of a text are read one after the other, the end marker last. -/
theorem tokens_induction {motive : Lexer → List Token → Prop}
    (last : ∀ lexer token following, lexer.next = (.ok token, following) → token.isEnd = true →
      motive lexer [token])
    (more : ∀ lexer token following others, lexer.next = (.ok token, following) →
      token.isEnd = false → motive following others → motive lexer (token :: others))
    {lexer : Lexer} {tokens : List Token} (h : lexer.tokens = .ok tokens) :
    motive lexer tokens := by
  induction hlength : lexer.rest.length using Nat.strongRecOn generalizing lexer tokens with
  | ind length ih =>
    subst hlength
    rw [lexer.tokens_eq] at h
    split at h
    · cases h
    · next token following hnext =>
      split at h
      · next ends =>
        cases h
        exact last lexer token following hnext ends
      · next inner =>
        have inner : token.isEnd = false := Bool.eq_false_iff.mpr inner
        cases hothers : following.tokens with
        | error error => rw [hothers] at h; cases h
        | ok others =>
          rw [hothers] at h
          cases h
          exact more lexer token following others hnext inner
            (ih _ (length_next_lt hnext inner) hothers rfl)

/-- The tokens of a text are spelled like tokens of texts, and the last one is the only end marker.
-/
theorem genuine_of_tokens {tokens : List Token} (h : lexer.tokens = .ok tokens) :
    ∃ front last, tokens = front ++ [last] ∧ last.kind = .eof ∧
      ∀ token ∈ front, token.kind ≠ .eof ∧ token.Genuine := by
  refine tokens_induction
    (motive := fun _ tokens => ∃ front last, tokens = front ++ [last] ∧ last.kind = .eof ∧
      ∀ token ∈ front, token.kind ≠ .eof ∧ token.Genuine) ?_ ?_ h
  · intro lexer token following _ ends
    exact ⟨[], token, rfl, of_decide_eq_true ends, nofun⟩
  · rintro lexer token following _ hnext inner ⟨front, last, rfl, final, hfront⟩
    have first : token.kind ≠ .eof ∧ token.Genuine :=
      ⟨of_decide_eq_false inner, genuine_of_next hnext⟩
    exact ⟨token :: front, last, rfl, final, List.forall_mem_cons.mpr ⟨first, hfront⟩⟩

/-- The tokens of a text start one behind the other. -/
theorem starts_of_tokens {tokens : List Token} (h : lexer.tokens = .ok tokens) :
    tokens.Pairwise fun first second => first.span.start ≤ second.span.start := by
  refine And.left (b := ∀ token ∈ tokens, lexer.place.offset ≤ token.span.start) ?_
  refine tokens_induction (motive := fun lexer tokens =>
    (tokens.Pairwise fun first second => first.span.start ≤ second.span.start) ∧
      ∀ token ∈ tokens, lexer.place.offset ≤ token.span.start) ?_ ?_ h
  · intro lexer token following hnext _
    refine ⟨List.pairwise_singleton _ _, fun other found => ?_⟩
    obtain rfl := List.mem_singleton.mp found
    exact (offset_le_next hnext).1
  · rintro lexer token following others hnext _ ⟨inOrder, behind⟩
    have ⟨start, goesOn⟩ := offset_le_next hnext
    refine ⟨List.pairwise_cons.mpr ⟨fun other found => ?_, inOrder⟩, ?_⟩
    · exact Nat.le_trans goesOn (behind other found)
    refine List.forall_mem_cons.mpr ⟨start, fun other found => ?_⟩
    exact Nat.le_trans start (Nat.le_trans goesOn (behind other found))

end Lexer

end Adql
