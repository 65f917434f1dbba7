import Adql.Proofs.RoundTrip.Cutting
import Mathlib.Data.List.Basic

/-!
# What a gap is made of

`IsGap` says without reference to the reader what may stand in front of a token: blanks, line
comments and block comments, each of them complete.  The reader skips such a gap (`exists_gap`),
and no gap is left where it stops (`noGap_of_skipGap`).  A block comment that is never closed is
reported where it begins (`unclosed_place`).

Wherever a gap stands, it is skipped (`IsGap.skipGap`), whatever text stands behind it
(`IsGap.exchange`); if it reaches the end of the text, a newline ends the line comment that may be open
there (`IsGap.append_newline`).  Which texts may be exchanged for what stands behind a token is said by
`SeversLike`.
-/

namespace Adql

open Adql.Text

/-- Is the text, in front of what stands behind it, made of blanks and of complete comments?  A line
comment goes up to a newline or up to the end of everything. -/
inductive IsGap : List Char → List Char → Prop
  | none (behind : List Char) : IsGap [] behind
  | blank {c : Char} {gap behind : List Char} :
    isBlank c = true → IsGap gap behind → IsGap (c :: gap) behind
  | line {comment gap behind : List Char} :
    '\n' ∉ comment → IsGap gap behind → IsGap ('-' :: '-' :: comment ++ '\n' :: gap) behind
  | lastLine {comment : List Char} : '\n' ∉ comment → IsGap ('-' :: '-' :: comment) []
  | block {comment gap behind : List Char} :
    ¬ ['*', '/'] <:+: comment → IsGap gap behind →
      IsGap ('/' :: '*' :: comment ++ '*' :: '/' :: gap) behind

/-- What is left of a gap, if the reader is in the given mode. -/
def GapMode.Ends : GapMode → List Char → List Char → Prop
  | .between, text, behind => IsGap text behind
  | .lineComment, text, behind =>
    ('\n' ∉ text ∧ behind = []) ∨
      ∃ comment gap, text = comment ++ '\n' :: gap ∧ '\n' ∉ comment ∧ IsGap gap behind
  | .blockComment _, text, behind =>
    ∃ comment gap, text = comment ++ '*' :: '/' :: gap ∧ ¬ ['*', '/'] <:+: comment ∧
      IsGap gap behind

/-! ### What may follow -/

/-- Does every token end in front of the character?  It is a blank, a comma or a closing parenthesis. -/
def endsTokens (c : Char) : Bool :=
  isBlank c || c == ',' || c == ')'

/-- Tokens end in front of a blank. -/
theorem endsTokens_of_isBlank {c : Char} (h : isBlank c = true) : endsTokens c = true := by
  rw [endsTokens, h]
  rfl

/-- What no blank, no comma and no closing parenthesis is, nothing is that tokens end in front of. -/
theorem eq_false_of_endsTokens {p : Char → Bool} (blank : ∀ c, isBlank c = true → p c = false)
    (comma : p ',' = false) (paren : p ')' = false) (c : Char) (h : endsTokens c = true) :
    p c = false := by
  simp only [endsTokens, Bool.or_eq_true, beq_iff_eq] at h
  rcases h with (isBlank | rfl) | rfl
  · exact blank c isBlank
  · exact comma
  · exact paren

/-- No token ends in front of a digit because of it. -/
theorem isDigit_of_endsTokens {c : Char} (h : endsTokens c = true) : c.isDigit = false := by
  refine eq_false_of_endsTokens (fun c blank => ?_) rfl rfl c h
  refine Bool.eq_false_iff.mpr fun digit => ?_
  rw [isBlank_of_isDigit digit] at blank
  cases blank

/-- Does whatever ends in front of the first text also end in front of the second?  The second text
is empty or starts with what ends tokens, or it starts as the first one does. -/
structure SeversLike (first second : List Char) : Prop where
  /-- The second text starts with what ends tokens, or as the first one does. -/
  head : ∀ c ∈ second.head?, endsTokens c = true ∨ first.head? = some c
  /-- The second text starts with a fraction only if the first one does. -/
  fraction : startsFraction second = true → startsFraction first = true

namespace SeversLike

variable {first second more : List Char}

/-- Everything ends in front of what ends tokens. -/
theorem of_ends (ends : ∀ c ∈ second.head?, endsTokens c = true) : SeversLike first second where
  head c hc := .inl (ends c hc)
  fraction h := by
    unfold startsFraction at h
    split at h
    · exact absurd (ends '.' rfl) (by decide)
    · cases h

/-- Everything ends in front of a blank. -/
theorem of_blank (blank : ∀ c ∈ second.head?, isBlank c = true) : SeversLike first second :=
  .of_ends fun c hc => endsTokens_of_isBlank (blank c hc)

/-- What stands in front changes nothing. -/
theorem append (h : SeversLike first second) (front : List Char) :
    SeversLike (front ++ first) (front ++ second) where
  head c hc := by
    cases front with
    | nil => exact h.head c hc
    | cons => exact .inr hc
  fraction found := by
    match front with
    | [] => exact h.fraction found
    | [d] =>
      by_cases point : d = '.'
      · subst point
        cases second with
        | nil => cases found
        | cons e second =>
          have digit : e.isDigit = true := found
          obtain ends | same := h.head e rfl
          · rw [isDigit_of_endsTokens ends] at digit
            cases digit
          · obtain ⟨tail, rfl⟩ := List.head?_eq_some_iff.mp same
            exact found
      · simp [startsFraction, point] at found
    | d :: e :: front =>
      by_cases point : d = '.'
      · subst point
        exact found
      · simp [startsFraction, point] at found

/-- A text that goes on with what ends tokens severs like the text alone. -/
theorem extended (ends : ∀ c ∈ more.head?, endsTokens c = true) (text : List Char) :
    SeversLike text (text ++ more) := by
  have severs : SeversLike [] more := .of_ends ends
  simpa using severs.append text

/-- A run of characters that no token ends in front of ends as well. -/
theorem stop {p : Char → Bool} (h : SeversLike first second)
    (none : ∀ c, endsTokens c = true → p c = false) (stop : ∀ c ∈ first.head?, p c = false) :
    ∀ c ∈ second.head?, p c = false := by
  intro c hc
  obtain ends | same := h.head c hc
  · exact none c ends
  · exact stop c same

end SeversLike

/-! ### Gaps that are skipped -/

/-- The reader skips a gap, unless a comment in it is never closed. -/
theorem exists_gap {mode : GapMode} {place : Position} {text : List Char}
    (closed : (skipGap mode place text).unclosed = none) :
    ∃ gap, text = gap ++ (skipGap mode place text).rest ∧
      mode.Ends gap (skipGap mode place text).rest ∧
      (skipGap mode place text).place = place.advance gap := by
  fun_induction skipGap mode place text with
  | case1 place => exact ⟨[], rfl, .none _, rfl⟩
  | case2 place rest ih =>
    obtain ⟨gap, whole, ends, same⟩ := ih closed
    refine ⟨'-' :: '-' :: gap, congrArg ('-' :: '-' :: ·) whole, ?_, same⟩
    obtain ⟨inner, behind⟩ | ⟨comment, gap, rfl, inner, more⟩ := ends
    · rw [behind]
      exact .lastLine inner
    · exact .line inner more
  | case3 place rest ih =>
    obtain ⟨gap, whole, ⟨comment, gap, rfl, inner, more⟩, same⟩ := ih closed
    exact ⟨_, congrArg ('/' :: '*' :: ·) whole, .block inner more, same⟩
  | case4 place c rest _ _ blank ih =>
    obtain ⟨gap, whole, ends, same⟩ := ih closed
    exact ⟨c :: gap, congrArg (c :: ·) whole, .blank blank ends, same⟩
  | case5 place c rest => exact ⟨[], rfl, .none _, rfl⟩
  | case6 place => exact ⟨[], rfl, .inl ⟨List.not_mem_nil, rfl⟩, rfl⟩
  | case7 place rest ih =>
    obtain ⟨gap, whole, ends, same⟩ := ih closed
    exact ⟨'\n' :: gap, congrArg ('\n' :: ·) whole, .inr ⟨[], gap, rfl, List.not_mem_nil, ends⟩,
      same⟩
  | case8 place c rest other ih =>
    obtain ⟨gap, whole, ends, same⟩ := ih closed
    refine ⟨c :: gap, congrArg (c :: ·) whole, ?_, same⟩
    have newline {comment : List Char} (inner : '\n' ∉ comment) : '\n' ∉ c :: comment :=
      List.not_mem_cons_of_ne_of_not_mem (Ne.symm other) inner
    obtain ⟨inner, behind⟩ | ⟨comment, gap, rfl, inner, more⟩ := ends
    · exact .inl ⟨newline inner, behind⟩
    · exact .inr ⟨c :: comment, gap, rfl, newline inner, more⟩
  | case9 opening place => cases closed
  | case10 opening place rest ih =>
    obtain ⟨gap, whole, ends, same⟩ := ih closed
    exact ⟨'*' :: '/' :: gap, congrArg ('*' :: '/' :: ·) whole, ⟨[], gap, rfl, by simp, ends⟩, same⟩
  | case11 opening place c rest opened ih =>
    obtain ⟨gap, whole, ⟨comment, gap, rfl, inner, more⟩, same⟩ := ih closed
    refine ⟨_, congrArg (c :: ·) whole, ⟨c :: comment, gap, rfl, fun found => ?_, more⟩, same⟩
    -- a closing mark would begin with the character that was just read
    obtain ⟨rest', starts⟩ | found := List.infix_cons_iff.mp found
    · obtain ⟨rfl, rfl⟩ := List.cons.inj starts
      exact opened _ rfl whole
    · exact inner found

/-- A block comment that is never closed reaches the end of the text, and it is reported at its
opening mark. -/
theorem unclosed_place {mode : GapMode} {place opening : Position} {text : List Char}
    (unclosed : (skipGap mode place text).unclosed = some opening) :
    mode = .blockComment opening ∨
      ∃ front back, text = front ++ '/' :: '*' :: back ∧ opening = place.advance front := by
  fun_induction skipGap mode place text with
  | case1 | case5 | case6 => cases unclosed
  | case9 => exact .inl (congrArg GapMode.blockComment (Option.some.inj unclosed))
  | case2 place rest ih =>
    obtain same | ⟨front, back, rfl, same⟩ := ih unclosed
    · cases same
    · exact .inr ⟨'-' :: '-' :: front, back, rfl, same⟩
  | case3 place rest ih =>
    obtain same | ⟨front, back, rfl, same⟩ := ih unclosed
    · cases same
      exact .inr ⟨[], rest, rfl, rfl⟩
    · exact .inr ⟨'/' :: '*' :: front, back, rfl, same⟩
  | case10 other place rest ih =>
    obtain same | ⟨front, back, rfl, same⟩ := ih unclosed
    · cases same
    · exact .inr ⟨'*' :: '/' :: front, back, rfl, same⟩
  | case4 place c rest _ _ _ ih | case7 place rest ih | case8 place c rest _ ih =>
    obtain same | ⟨front, back, rfl, same⟩ := ih unclosed
    · cases same
    · exact .inr ⟨_ :: front, back, rfl, same⟩
  | case11 other place c rest _ ih =>
    obtain same | ⟨front, back, rfl, same⟩ := ih unclosed
    · exact .inl same
    · exact .inr ⟨c :: front, back, rfl, same⟩

/-! ### Texts that begin with a token -/

/-- Does the text begin with no gap? -/
inductive NoGap : List Char → Prop
  | nil : NoGap []
  | cons {c : Char} {rest : List Char} : isBlank c = false → (c = '-' → rest.head? ≠ some '-') →
    (c = '/' → rest.head? ≠ some '*') → NoGap (c :: rest)

/-- Nothing is skipped where there is no gap. -/
theorem NoGap.skipGap {text : List Char} (h : NoGap text) (place : Position) :
    skipGap .between place text = ⟨place, text, none⟩ := by
  cases h with
  | nil => rfl
  | cons visible line block => exact skipGap_cons visible line block place

/-- Where the reader finds neither a blank nor a comment, there is no gap. -/
theorem noGap_cons {c : Char} {rest : List Char}
    (line : ∀ comment, c = '-' → rest = '-' :: comment → False)
    (block : ∀ comment, c = '/' → rest = '*' :: comment → False) (visible : ¬isBlank c = true) :
    NoGap (c :: rest) := by
  refine .cons (Bool.eq_false_iff.mpr visible) (fun h starts => ?_) (fun h starts => ?_)
  · obtain ⟨comment, same⟩ := List.head?_eq_some_iff.mp starts
    exact line comment h same
  · obtain ⟨comment, same⟩ := List.head?_eq_some_iff.mp starts
    exact block comment h same

/-- There is no gap left where the reader stops. -/
theorem noGap_of_skipGap {mode : GapMode} {place : Position} {text : List Char}
    (closed : (skipGap mode place text).unclosed = none) :
    NoGap (skipGap mode place text).rest := by
  fun_induction skipGap mode place text with
  | case1 | case6 => exact .nil
  | case9 => cases closed
  | case5 place c rest line block visible => exact noGap_cons line block visible
  | case2 _ _ ih | case3 _ _ ih | case4 _ _ _ _ _ _ ih | case7 _ _ ih | case8 _ _ _ _ ih
  | case10 _ _ _ ih | case11 _ _ _ _ _ ih => exact ih closed

/-- What stands behind its first character, no gap begins if none did before. -/
theorem NoGap.severed {front rest other : List Char} (h : NoGap (front ++ rest))
    (nonempty : front ≠ []) (severs : SeversLike rest other) : NoGap (front ++ other) := by
  have head {d : Char} (inner : endsTokens d = false) {tail : List Char}
      (first : (tail ++ rest).head? ≠ some d) : (tail ++ other).head? ≠ some d := by
    intro found
    obtain ends | same := (severs.append tail).head d found
    · rw [inner] at ends
      cases ends
    · exact first same
  cases front with
  | nil => exact absurd rfl nonempty
  | cons c tail =>
    cases h with
    | cons visible line block =>
      exact .cons visible (fun h => head (by decide) (line h)) (fun h => head (by decide) (block h))

/-! ### Gaps in longer texts -/

/-- A line comment is skipped up to the newline that ends it. -/
theorem skipGap_line {comment : List Char} (inner : '\n' ∉ comment) (place : Position)
    (text : List Char) :
    skipGap .lineComment place (comment ++ '\n' :: text) =
      skipGap .between ((place.advance comment).after '\n') text := by
  induction comment generalizing place with
  | nil => rfl
  | cons c comment ih =>
    obtain ⟨other, inner⟩ := List.ne_and_not_mem_of_not_mem_cons inner
    rw [List.cons_append, skipGap, if_neg (Ne.symm other), ih inner]
    rfl

/-- A line comment that is never ended is skipped up to the end. -/
theorem skipGap_lastLine {comment : List Char} (inner : '\n' ∉ comment) (place : Position) :
    skipGap .lineComment place comment = ⟨place.advance comment, [], none⟩ := by
  induction comment generalizing place with
  | nil => rfl
  | cons c comment ih =>
    obtain ⟨other, inner⟩ := List.ne_and_not_mem_of_not_mem_cons inner
    rw [skipGap, if_neg (Ne.symm other), ih inner]
    rfl

/-- A block comment is skipped up to its closing mark. -/
theorem skipGap_block {comment : List Char} (inner : ¬ ['*', '/'] <:+: comment)
    (opening place : Position) (text : List Char) :
    skipGap (.blockComment opening) place (comment ++ '*' :: '/' :: text) =
      skipGap .between ((place.advance comment).advance ['*', '/']) text := by
  induction comment generalizing place with
  | nil => rfl
  | cons c comment ih =>
    rw [List.cons_append, skipGap, ih fun found => inner (found.trans (List.suffix_cons c _).isInfix)]
    · rfl
    · -- a closing mark does not begin with the last character of the comment
      rintro rest rfl starts
      cases comment with
      | nil => cases starts
      | cons d comment =>
        obtain ⟨rfl, -⟩ := List.cons.inj starts
        exact inner (List.prefix_append ['*', '/'] comment).isInfix

namespace IsGap

variable {gap behind : List Char}

/-- Blanks are a gap. -/
theorem of_blanks {blanks : List Char} (blank : ∀ c ∈ blanks, isBlank c = true)
    (behind : List Char) : IsGap blanks behind := by
  induction blanks with
  | nil => exact .none behind
  | cons c blanks ih =>
    obtain ⟨first, others⟩ := List.forall_mem_cons.mp blank
    exact .blank first (ih others)

/-- A gap is skipped wherever it stands. -/
theorem skipGap (h : IsGap gap behind) (place : Position) :
    Adql.skipGap .between place (gap ++ behind) =
      Adql.skipGap .between (place.advance gap) behind := by
  induction h generalizing place with
  | none => rfl
  | @blank c gap behind blank _ ih =>
    have line : c ≠ '-' := by rintro rfl; exact absurd blank (by decide)
    have block : c ≠ '/' := by rintro rfl; exact absurd blank (by decide)
    rw [List.cons_append, Adql.skipGap, if_pos blank, ih]
    · rfl
    · exact fun _ h => absurd h line
    · exact fun _ h => absurd h block
  | @line comment gap behind inner _ ih =>
    have shape : '-' :: '-' :: comment ++ '\n' :: gap ++ behind =
        '-' :: '-' :: (comment ++ '\n' :: (gap ++ behind)) := by simp
    rw [shape, Adql.skipGap, skipGap_line inner, ih]
    simp
  | @lastLine comment inner =>
    rw [List.append_nil]
    exact skipGap_lastLine inner _
  | @block comment gap behind inner _ ih =>
    have shape : '/' :: '*' :: comment ++ '*' :: '/' :: gap ++ behind =
        '/' :: '*' :: (comment ++ '*' :: '/' :: (gap ++ behind)) := by simp
    rw [shape, Adql.skipGap, skipGap_block inner, ih]
    simp

/-- A gap in front of some text is a gap in front of any other text. -/
theorem exchange (h : IsGap gap behind) (nonempty : behind ≠ []) (other : List Char) :
    IsGap gap other := by
  induction h with
  | none => exact .none other
  | blank first _ ih => exact .blank first (ih nonempty)
  | line inner _ ih => exact .line inner (ih nonempty)
  | lastLine => exact absurd rfl nonempty
  | block inner _ ih => exact .block inner (ih nonempty)

/-- Behind a gap at the end of a text, a newline ends the line comment that may be open there. -/
theorem append_newline (h : IsGap gap behind) (nothing : behind = []) (other : List Char) :
    IsGap (gap ++ ['\n']) other := by
  induction h with
  | none => exact .blank rfl (.none other)
  | blank first _ ih => exact .blank first (ih nothing)
  | line inner _ ih => simpa using IsGap.line inner (ih nothing)
  | lastLine inner => exact .line inner (.none other)
  | block inner _ ih => simpa using IsGap.block inner (ih nothing)

/-- A gap at the end of a text may stand in front of any text, or it ends with a line comment, which
takes in whatever is written behind it on the same line. -/
theorem closed_or_open (h : IsGap gap behind) (nothing : behind = []) :
    (∀ other, IsGap gap other) ∨ ∀ more, '\n' ∉ more → IsGap (gap ++ more) [] := by
  induction h with
  | none => exact .inl .none
  | blank first _ ih =>
    exact (ih nothing).imp (fun closed other => .blank first (closed other))
      fun isOpen more same => .blank first (isOpen more same)
  | line inner _ ih =>
    refine (ih nothing).imp (fun closed other => .line inner (closed other)) fun isOpen more same => ?_
    simpa using IsGap.line inner (isOpen more same)
  | lastLine inner =>
    exact .inr fun more same => .lastLine fun found => (List.mem_append.mp found).elim inner same
  | block inner _ ih =>
    refine (ih nothing).imp (fun closed other => .block inner (closed other)) fun isOpen more same => ?_
    simpa using IsGap.block inner (isOpen more same)

end IsGap

end Adql
