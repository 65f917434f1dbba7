import Adql.Proofs.Tokens.Tiling

/-!
# The lexer makes progress

A lexer goes on after every answer, errors included, so what it answers is looked at call by call
(`Lexer.after`), however many calls there are.  A call that has only a gap left answers the end marker,
and the lexer stays at the end from then on (`Lexer.next_of_gap`); any other call uses at least one
character (`Lexer.length_next_lt_of_not_gap`).  Whatever a call uses, it uses whole characters
(`Lexer.exists_used`), so the bytes in front of the lexer always are some characters of the text.
-/

namespace Adql

open Adql.Text

/-! ### What is used -/

/-- A gap is split off the text, whether or not a comment in it is closed. -/
theorem skipGap_append (mode : GapMode) (place : Position) (text : List Char) :
    ∃ used, text = used ++ (skipGap mode place text).rest ∧
      (skipGap mode place text).place = place.advance used := by
  fun_induction skipGap mode place text with
  | case1 | case5 | case6 | case9 => exact ⟨[], rfl, rfl⟩
  | case2 place rest ih =>
    obtain ⟨used, whole, goesOn⟩ := ih
    exact ⟨'-' :: '-' :: used, congrArg ('-' :: '-' :: ·) whole, goesOn⟩
  | case3 place rest ih =>
    obtain ⟨used, whole, goesOn⟩ := ih
    exact ⟨'/' :: '*' :: used, congrArg ('/' :: '*' :: ·) whole, goesOn⟩
  | case10 opening place rest ih =>
    obtain ⟨used, whole, goesOn⟩ := ih
    exact ⟨'*' :: '/' :: used, congrArg ('*' :: '/' :: ·) whole, goesOn⟩
  | case4 place c rest _ _ _ ih | case7 place rest ih | case8 place c rest _ ih
  | case11 opening place c rest _ ih =>
    obtain ⟨used, whole, goesOn⟩ := ih
    exact ⟨_ :: used, congrArg (_ :: ·) whole, goesOn⟩

/-- A comment that is never closed takes all of the text along. -/
theorem rest_of_unclosed {mode : GapMode} {place opening : Position} {text : List Char}
    (unclosed : (skipGap mode place text).unclosed = some opening) :
    (skipGap mode place text).rest = [] := by
  fun_induction skipGap mode place text with
  | case1 | case5 | case6 => cases unclosed
  | case9 => rfl
  | case2 _ _ ih | case3 _ _ ih | case4 _ _ _ _ _ _ ih | case7 _ _ ih | case8 _ _ _ _ ih
  | case10 _ _ _ ih | case11 _ _ _ _ _ ih => exact ih unclosed

/-- The text that a malformed numeral is reported with is what was used of it. -/
theorem text_of_malformed {text : List Char} {found : String}
    (h : (scanToken text).outcome = .error (.malformedNumber found)) :
    found = String.ofList (scanToken text).used := by
  have numeral {used rest : List Char} {hasValue : Bool} {kind : TokenKind}
      (h : (scanNumeral used rest hasValue kind).outcome = .error (.malformedNumber found)) :
      found = String.ofList (scanNumeral used rest hasValue kind).used := by
    unfold scanNumeral at h ⊢
    split at h
    · cases h
    · next refused =>
      rw [if_neg refused]
      cases h
      rfl
  unfold scanToken at h ⊢
  split at h
  · cases h
  · unfold scanString at h
    split at h
    · cases h
    · cases h
  · unfold scanDelimited at h
    split at h
    · dsimp only at h
      split at h
      · cases h
      · cases h
    · cases h
  · split at h
    · next number =>
      rw [if_pos number]
      unfold scanNumber at h ⊢
      split at h
      · exact numeral h
      · exact numeral h
      · unfold scanDecimal at h ⊢
        dsimp only at h ⊢
        split at h
        · split at h
          · next mark fraction =>
            rw [if_pos mark, if_pos fraction]
            exact numeral h
          · next mark fraction =>
            rw [if_pos mark, if_neg fraction]
            exact numeral h
        · next mark =>
          rw [if_neg mark]
          exact numeral h
    · split at h
      · unfold scanWord at h
        dsimp only at h
        cases h
      · unfold scanSymbol at h
        split at h
        all_goals cases h

/-- Behind some characters, the offset is larger by their bytes. -/
theorem Position.offset_advance (place : Position) (text : List Char) :
    (place.advance text).offset = place.offset + (String.ofList text).utf8ByteSize := by
  induction text generalizing place with
  | nil => rfl
  | cons c text ih =>
    have first : (place.after c).offset = place.offset + c.utf8Size := by
      unfold after
      split
      · rfl
      · rfl
    have bytes : (String.ofList (c :: text)).utf8ByteSize =
        c.utf8Size + (String.ofList text).utf8ByteSize := by
      rw [← List.singleton_append, String.ofList_append, String.utf8ByteSize_append,
        ← String.singleton_eq_ofList, String.utf8ByteSize_singleton]
    rw [advance_cons, ih, first, bytes, Nat.add_assoc]

/-! ### One call -/

namespace Lexer

variable {lexer following : Lexer}

/-- A call uses some characters in front of what is left, and the lexer goes on behind them. -/
theorem exists_used (lexer : Lexer) :
    ∃ used, lexer.rest = used ++ lexer.next.2.rest ∧
      lexer.next.2.place = lexer.place.advance used := by
  obtain ⟨gap, whole, goesOn⟩ := skipGap_append .between lexer.place lexer.rest
  unfold next
  dsimp only
  split
  · exact ⟨gap, whole, goesOn⟩
  · refine ⟨gap ++ (scanToken (skipGap .between lexer.place lexer.rest).rest).used, ?_, ?_⟩
    · rw [List.append_assoc, scanToken_append]
      exact whole
    · rw [Position.advance_append, ← goesOn]

/-- With only a gap left, the answer is the end marker, and nothing is left. -/
theorem next_of_gap (h : IsGap lexer.rest []) :
    lexer.next = (.ok (.endAt (lexer.place.advance lexer.rest)),
      ⟨[], lexer.place.advance lexer.rest⟩) := by
  have skipped := h.skipGap lexer.place
  rw [List.append_nil] at skipped
  unfold next
  dsimp only
  rw [skipped]
  rfl

/-- With more than a gap left, some characters are used, and the answer is not the end marker. -/
theorem length_next_lt_of_not_gap (h : ¬IsGap lexer.rest []) :
    lexer.next.2.rest.length < lexer.rest.length ∧
      ∀ token, lexer.next.1 = .ok token → token.isEnd = false := by
  have present : 0 < lexer.rest.length := by
    refine List.length_pos_iff.mpr fun empty => h ?_
    rw [empty]
    exact .none []
  unfold next
  dsimp only
  split
  · next opening unclosed =>
    rw [rest_of_unclosed unclosed]
    exact ⟨present, nofun⟩
  · next closed =>
    obtain ⟨gap, whole, ends, -⟩ := exists_gap closed
    have more : (skipGap .between lexer.place lexer.rest).rest ≠ [] := by
      intro empty
      have all : lexer.rest = gap := by rw [whole, empty, List.append_nil]
      have isGap : IsGap gap (skipGap .between lexer.place lexer.rest).rest := ends
      rw [empty, ← all] at isGap
      exact h isGap
    have shorter := length_scanToken_lt more
    have skipped := length_skipGap_le .between lexer.place lexer.rest
    refine ⟨shorter.trans_le skipped, fun token answer => decide_eq_false fun ended => more ?_⟩
    unfold Lexeme.answer at answer
    split at answer
    · next kind accepted =>
      cases answer
      cases ended
      exact eq_nil_of_scanToken accepted
    · cases answer

/-- An error is reported at the place of the text that could not be read, which is used up. -/
theorem split_of_refused {error : LexError} (h : lexer.next = (.error error, following)) :
    ∃ front text, lexer.rest = front ++ text ++ following.rest ∧
      error.place = lexer.place.advance front ∧
      following.place = lexer.place.advance (front ++ text) ∧
      ∀ found, error.fault = .malformedNumber found → found = String.ofList text := by
  unfold next at h
  dsimp only at h
  split at h
  · next opening unclosed =>
    cases h
    obtain ⟨used, all, goesOn⟩ := skipGap_append .between lexer.place lexer.rest
    obtain same | ⟨front, back, whole, place⟩ := unclosed_place unclosed
    · cases same
    · have nothing := rest_of_unclosed unclosed
      have used_eq : used = front ++ '/' :: '*' :: back := by
        rw [← whole, all, nothing, List.append_nil]
      refine ⟨front, '/' :: '*' :: back, ?_, place, ?_, nofun⟩
      · rw [nothing, List.append_nil]
        exact whole
      · rw [← used_eq]
        exact goesOn
  · next closed =>
    obtain ⟨gap, whole, goesOn⟩ := skipGap_append .between lexer.place lexer.rest
    obtain ⟨answer, rfl⟩ := Prod.mk.inj h
    generalize skipGap .between lexer.place lexer.rest = skipped at *
    have parts := scanToken_append skipped.rest
    unfold Lexeme.answer at answer
    split at answer
    · cases answer
    · next fault refused =>
      cases answer
      refine ⟨gap, (scanToken skipped.rest).used, ?_, goesOn, ?_, ?_⟩
      · rw [List.append_assoc, parts]
        exact whole
      · rw [Position.advance_append, ← goesOn]
      · rintro found malformed
        dsimp only at malformed
        subst malformed
        exact text_of_malformed refused

/-- What one call of a lexer on a source does. -/
structure Progresses (lexer : Lexer) (source : String) : Prop where
  /-- What is left behind the call begins at a character of the source. -/
  boundary : String.Pos.Raw.IsValid source ⟨lexer.next.2.place.offset⟩
  /-- The lexer does not go back. -/
  forward : lexer.place.offset ≤ lexer.next.2.place.offset
  /-- The lexer goes on, or only a gap was left, and the answer is the end marker. -/
  goesOn : lexer.place.offset < lexer.next.2.place.offset ∨
    IsGap lexer.rest [] ∧ lexer.next.1 = .ok (.endAt lexer.next.2.place)
  /-- What is left in front of the call is the end of the source. -/
  left : ∃ front, source = front ++ String.ofList lexer.rest ∧ lexer.place.Behind front
  /-- A token is cut out of the source at characters, behind a gap. -/
  token : ∀ token, lexer.next.1 = .ok token →
    token.StandsBehind source lexer.place.offset ∧ token.span.stop = lexer.next.2.place.offset
  /-- An error stands at a character, and a malformed numeral is cut out at characters. -/
  error : ∀ error, lexer.next.1 = .error error → ∃ front text back : String,
    source = front ++ text ++ back ∧ error.place.Behind front ∧
      lexer.next.2.place.Behind (front ++ text) ∧
      ∀ found, error.fault = .malformedNumber found → found = text

/-- The number of bytes in front of a text that goes on is the offset of a character. -/
theorem isValid_of_append (front back : String) :
    String.Pos.Raw.IsValid (front ++ back) ⟨front.utf8ByteSize⟩ :=
  String.Pos.Raw.isValid_iff_exists_append.mpr ⟨front, back, rfl, rfl⟩

namespace HasRead

variable {source : String} {front : List Char}

/-- The lexer has read some more of the source behind a call. -/
theorem goesOn (read : lexer.HasRead front source) {used : List Char} {following : Lexer}
    (whole : lexer.rest = used ++ following.rest) (place : following.place = lexer.place.advance used) :
    following.HasRead (front ++ used) source where
  whole := by rw [read.whole, whole, List.append_assoc]
  place := by rw [place, read.place, Position.advance_append]

/-- A lexer stands behind the characters that it has read. -/
theorem behind (read : lexer.HasRead front source) : lexer.place.Behind (String.ofList front) := by
  rw [read.place]
  exact Position.behind_advance front

/-- What has been read and what is left are the source. -/
theorem source_eq (read : lexer.HasRead front source) :
    source = String.ofList front ++ String.ofList lexer.rest := by
  apply String.toList_injective
  simp [read.whole]

/-- One step: what a call does. -/
theorem progresses (read : lexer.HasRead front source) : lexer.Progresses source := by
  obtain ⟨used, whole, place⟩ := lexer.exists_used
  have longer := read.goesOn whole place
  have bytes := lexer.place.offset_advance used
  rw [← place] at bytes
  refine ⟨?_, by omega, ?_, ⟨_, read.source_eq, read.behind⟩, fun token answer => ?_,
    fun error answer => ?_⟩
  · rw [longer.behind.offset, longer.source_eq]
    exact isValid_of_append _ _
  · by_cases gap : IsGap lexer.rest []
    · have answer := next_of_gap gap
      refine .inr ⟨gap, ?_⟩
      rw [answer]
    · have shorter := (length_next_lt_of_not_gap gap).1
      have nonempty : used ≠ [] := by
        rintro rfl
        rw [whole] at shorter
        simp at shorter
      have some : 0 < (String.ofList used).utf8ByteSize := by
        refine Nat.pos_of_ne_zero fun none => nonempty ?_
        exact String.ofList_eq_empty_iff.mp (String.utf8ByteSize_eq_zero_iff.mp none)
      exact .inl (by omega)
  · have called : lexer.next = (.ok token, lexer.next.2) := Prod.ext answer rfl
    obtain ⟨stands, further, again, stop⟩ := read.next called
    rw [read.behind.offset]
    exact ⟨stands, stop.trans again.behind.offset.symm⟩
  · have called : lexer.next = (.error error, lexer.next.2) := Prod.ext answer rfl
    obtain ⟨inner, text, split, start, stop, malformed⟩ := split_of_refused called
    have again := read.goesOn split stop
    refine ⟨String.ofList (front ++ inner), String.ofList text, String.ofList lexer.next.2.rest, ?_, ?_,
      ?_, malformed⟩
    · rw [← String.ofList_append, List.append_assoc]
      exact again.source_eq
    · rw [start, read.place, ← Position.advance_append]
      exact Position.behind_advance _
    · rw [← String.ofList_append, List.append_assoc]
      exact again.behind

end HasRead

/-! ### Any number of calls -/

/-- The lexer behind a number of calls, errors included. -/
def after (lexer : Lexer) : Nat → Lexer
  | 0 => lexer
  | count + 1 => (lexer.after count).next.2

/-- The first call of more than one leads to the others. -/
theorem after_succ (lexer : Lexer) (count : Nat) :
    lexer.after (count + 1) = lexer.next.2.after count := by
  induction count with
  | zero => rfl
  | succ count ih => exact congrArg (fun reached => reached.next.2) ih

/-- The answers of a number of calls are those of each of them. -/
theorem answers_eq (lexer : Lexer) (count : Nat) :
    lexer.answers count = (List.range count).map fun index => (lexer.after index).next.1 := by
  induction count generalizing lexer with
  | zero => rfl
  | succ count ih =>
    have others : ∀ index, (lexer.next.2.after index).next.1 = (lexer.after (index + 1)).next.1 := by
      intro index
      rw [after_succ]
    show lexer.next.1 :: lexer.next.2.answers count = _
    rw [ih, List.range_succ_eq_map, List.map_cons, List.map_map]
    simp only [others]
    rfl

/-- Behind any number of calls, the lexer has read some front part of the source. -/
theorem HasRead.after {lexer : Lexer} {source : String} {front : List Char}
    (read : lexer.HasRead front source) (count : Nat) :
    ∃ longer, (lexer.after count).HasRead longer source := by
  induction count with
  | zero => exact ⟨front, read⟩
  | succ count ih =>
    obtain ⟨longer, reached⟩ := ih
    obtain ⟨used, whole, place⟩ := (lexer.after count).exists_used
    exact ⟨longer ++ used, reached.goesOn whole place⟩

/-- A lexer that has nothing left stays where it is and answers the end marker for ever. -/
theorem after_of_nil (nothing : lexer.rest = []) (count : Nat) :
    lexer.after count = lexer ∧ (lexer.after count).next.1 = .ok (.endAt lexer.place) := by
  have answer : lexer.next = (.ok (.endAt lexer.place), lexer) := by
    obtain ⟨rest, place⟩ := lexer
    cases nothing
    exact next_of_gap (.none [])
  have stays : lexer.after count = lexer := by
    induction count with
    | zero => rfl
    | succ count ih =>
      show (lexer.after count).next.2 = lexer
      rw [ih, answer]
  rw [stays, answer]
  exact ⟨rfl, rfl⟩

/-- The end marker is answered before more calls are made than there are characters left. -/
theorem exists_end (lexer : Lexer) :
    ∃ count ≤ lexer.rest.length, ∃ place, (lexer.after count).next.1 = .ok (.endAt place) := by
  induction hlength : lexer.rest.length using Nat.strongRecOn generalizing lexer with
  | ind length ih =>
    subst hlength
    by_cases gap : IsGap lexer.rest []
    · exact ⟨0, Nat.zero_le _, _, congrArg Prod.fst (next_of_gap gap)⟩
    · have shorter := (length_next_lt_of_not_gap gap).1
      obtain ⟨count, small, place, answer⟩ := ih _ shorter lexer.next.2 rfl
      refine ⟨count + 1, by omega, place, ?_⟩
      rwa [after_succ]

/-- The tokens that are left are the answers of as many calls; if there is an error, it is the answer of
the call behind those that answered tokens. -/
theorem tokens_answers (lexer : Lexer) :
    match lexer.tokens with
    | .ok tokens =>
      tokens.length ≤ lexer.rest.length + 1 ∧ lexer.answers tokens.length = tokens.map .ok
    | .error error => ∃ tokens : List Token, tokens.length < lexer.rest.length ∧
        lexer.answers (tokens.length + 1) = tokens.map .ok ++ [.error error] := by
  induction hlength : lexer.rest.length using Nat.strongRecOn generalizing lexer with
  | ind length ih =>
    subst hlength
    rw [lexer.tokens_eq]
    rcases hnext : lexer.next with ⟨answer, following⟩
    cases answer with
    | error error =>
      have more : ¬IsGap lexer.rest [] := by
        intro gap
        rw [next_of_gap gap] at hnext
        cases hnext
      have shorter := (length_next_lt_of_not_gap more).1
      refine ⟨[], by simpa using Nat.zero_lt_of_lt shorter, ?_⟩
      simp [answers, hnext]
    | ok token =>
      by_cases ends : token.isEnd = true
      · simp [ends, answers, hnext]
      · have inner : token.isEnd = false := Bool.eq_false_iff.mpr ends
        have shorter := length_next_lt hnext inner
        have others := ih _ shorter following rfl
        cases hothers : following.tokens with
        | ok tokens =>
          rw [hothers] at others
          obtain ⟨few, same⟩ := others
          simp only [inner, hothers, Bool.false_eq_true, if_false, Except.map]
          refine ⟨by simp only [List.length_cons]; omega, ?_⟩
          rw [List.length_cons, answers, hnext]
          simp [same]
        | error error =>
          rw [hothers] at others
          obtain ⟨tokens, few, same⟩ := others
          simp only [inner, hothers, Bool.false_eq_true, if_false, Except.map]
          refine ⟨token :: tokens, by simp only [List.length_cons]; omega, ?_⟩
          rw [List.length_cons, answers, hnext]
          simp [same]

/-- The lexer makes progress on characters: each of any number of calls goes on, unless only a gap is
left, and then the end marker is answered, from there on by every further call; it is answered after at
most one more call than the text has characters, and the tokens of the text are found by so many calls.
-/
theorem calls_progress (source : String) :
    (∀ count, ((ofText source).after count).Progresses source) ∧
    (∀ count, ((ofText source).after count).place.offset = source.utf8ByteSize → ∀ further,
      ((ofText source).after (count + further)).next.1 =
        .ok (.endAt ((ofText source).after count).place)) ∧
    (∃ count ≤ source.length, ∃ place,
      ((ofText source).after count).next.1 = .ok (.endAt place)) ∧
    match tokenize source with
    | .ok tokens =>
      tokens.length ≤ source.length + 1 ∧ (ofText source).answers tokens.length = tokens.map .ok
    | .error error => ∃ tokens : List Token, tokens.length < source.length ∧
        (ofText source).answers (tokens.length + 1) = tokens.map .ok ++ [.error error] := by
  have read : (ofText source).HasRead [] source := ⟨rfl, rfl⟩
  refine ⟨fun count => ?_, fun count ended further => ?_, ?_, ?_⟩
  · obtain ⟨front, reached⟩ := read.after count
    exact reached.progresses
  · obtain ⟨front, reached⟩ := read.after count
    have nothing : ((ofText source).after count).rest = [] := by
      have bytes := congrArg String.utf8ByteSize reached.source_eq
      rw [String.utf8ByteSize_append, ← reached.behind.offset, ended] at bytes
      exact String.ofList_eq_empty_iff.mp (String.utf8ByteSize_eq_zero_iff.mp (by omega))
    have later : (ofText source).after (count + further) =
        ((ofText source).after count).after further := by
      induction further with
      | zero => rfl
      | succ further ih => exact congrArg (fun reached => reached.next.2) ih
    rw [later]
    exact (after_of_nil nothing further).2
  · exact (ofText source).exists_end
  · exact (ofText source).tokens_answers

end Lexer

end Adql
