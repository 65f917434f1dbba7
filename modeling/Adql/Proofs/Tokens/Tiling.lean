import Adql.Proofs.Shape.Tokens
import Adql.Proofs.Tokens.Gaps
import Mathlib.Data.List.Induction

/-!
# Tokens tile their source

Where a token stands is said by counting in the text itself: `Position.Behind` counts the bytes,
the newlines and the characters of the last line in what stands in front.  The positions that the
reader keeps are these (`Position.behind_advance`), so the tokens of a source and the gaps in front
of them make up the source, byte by byte, and an error is reported at such a position, too.
-/

namespace Adql

open Adql.Text

/-! ### Positions -/

/-- Is the position the one behind the text, counted in the text? -/
structure Position.Behind (place : Position) (front : String) : Prop where
  /-- The offset is the number of bytes in front. -/
  offset : place.offset = front.utf8ByteSize
  /-- The line is the number of newlines in front. -/
  line : place.line = front.toList.count '\n'
  /-- The column is the number of characters in front, back to the last newline. -/
  column : place.column = (front.toList.reverse.takeWhile (· ≠ '\n')).length

/-- The positions that are kept while a text is read are those that are counted in it. -/
theorem Position.behind_advance (text : List Char) :
    (origin.advance text).Behind (String.ofList text) := by
  induction text using List.reverseRecOn with
  | nil => exact ⟨rfl, rfl, rfl⟩
  | append_singleton text c ih =>
    obtain ⟨offset, line, column⟩ := ih
    simp only [String.toList_ofList] at line column
    have bytes : (String.ofList (text ++ [c])).utf8ByteSize =
        (String.ofList text).utf8ByteSize + c.utf8Size := by
      rw [String.ofList_append, String.utf8ByteSize_append, ← String.singleton_eq_ofList,
        String.utf8ByteSize_singleton]
    rw [advance_append, advance_cons, advance_nil, after]
    split
    · next newline =>
      subst newline
      exact ⟨by rw [bytes, ← offset], by simp [line], by simp⟩
    · next other =>
      refine ⟨by rw [bytes, ← offset], ?_, ?_⟩
      · simp [line, List.count_append, other]
      · simp [column, other]

/-! ### Tokens in a source -/

/-- Does the token stand in the source behind a gap that begins at the offset? -/
def Token.StandsBehind (token : Token) (source : String) (start : Nat) : Prop :=
  ∃ front gap back : String, source = front ++ gap ++ token.lexeme ++ back ∧
    front.utf8ByteSize = start ∧ IsGap gap.toList (token.lexeme ++ back).toList ∧
    token.position.Behind (front ++ gap) ∧
    token.span.stop = token.span.start + token.lexeme.utf8ByteSize

/-- Do the tokens, with a gap in front of each of them, make up the source from the offset on? -/
def Tiled (source : String) : Nat → List Token → Prop
  | start, [] => start = source.utf8ByteSize
  | start, token :: tokens => token.StandsBehind source start ∧ Tiled source token.span.stop tokens

/-- The bytes of a token are those that its span cuts out of the source. -/
theorem Token.StandsBehind.slice {token : Token} {source : String} {start : Nat}
    (h : token.StandsBehind source start) :
    source.toByteArray.extract token.span.start token.span.stop = token.lexeme.toByteArray := by
  obtain ⟨front, gap, back, rfl, rfl, -, position, stop⟩ := h
  have first : token.span.start = (front ++ gap).toByteArray.size := position.offset
  rw [stop, first, String.append_assoc, String.toByteArray_append]
  refine (ByteArray.extract_append_size_add (i := 0)).trans ?_
  rw [String.toByteArray_append]
  exact ByteArray.extract_append_eq_left rfl

/-- A token does not end in front of its start. -/
theorem Token.StandsBehind.start_le_stop {token : Token} {source : String} {start : Nat}
    (h : token.StandsBehind source start) : token.span.start ≤ token.span.stop := by
  obtain ⟨_, _, _, _, _, _, _, stop⟩ := h
  rw [stop]
  exact Nat.le_add_right _ _

/-- A token does not start in front of the gap that it stands behind. -/
theorem Token.StandsBehind.le_start {token : Token} {source : String} {start : Nat}
    (h : token.StandsBehind source start) : start ≤ token.span.start := by
  obtain ⟨front, gap, back, rfl, rfl, -, position, -⟩ := h
  have first : token.span.start = (front ++ gap).utf8ByteSize := position.offset
  rw [first, String.utf8ByteSize_append]
  exact Nat.le_add_right _ _

namespace Tiled

variable {source : String} {start : Nat} {tokens : List Token}

/-- Tokens that make up the source from an offset on do not start in front of it. -/
theorem le_start (h : Tiled source start tokens) : ∀ token ∈ tokens, start ≤ token.span.start := by
  induction tokens generalizing start with
  | nil => exact nofun
  | cons token tokens ih =>
    obtain ⟨first, others⟩ := h
    refine List.forall_mem_cons.mpr ⟨first.le_start, fun other found => ?_⟩
    exact first.le_start.trans (first.start_le_stop.trans (ih others other found))

/-- The spans of tokens that make up a source follow each other without overlapping. -/
theorem ordered (h : Tiled source start tokens) :
    tokens.Pairwise fun first second =>
      first.span.start ≤ first.span.stop ∧ first.span.stop ≤ second.span.start := by
  induction tokens generalizing start with
  | nil => exact .nil
  | cons token tokens ih =>
    exact .cons (fun other found => ⟨h.1.start_le_stop, h.2.le_start other found⟩) (ih h.2)

/-- The span of a token is as long as its text. -/
theorem stop_eq (h : Tiled source start tokens) : ∀ token ∈ tokens,
    token.span.stop = token.span.start + token.lexeme.utf8ByteSize := by
  induction tokens generalizing start with
  | nil => exact nofun
  | cons token tokens ih =>
    obtain ⟨⟨_, _, _, _, _, _, _, stop⟩, others⟩ := h
    exact List.forall_mem_cons.mpr ⟨stop, ih others⟩

/-- Each of the tokens is what its span cuts out of the source. -/
theorem slice (h : Tiled source start tokens) : ∀ token ∈ tokens,
    source.toByteArray.extract token.span.start token.span.stop = token.lexeme.toByteArray := by
  induction tokens generalizing start with
  | nil => exact nofun
  | cons token tokens ih => exact List.forall_mem_cons.mpr ⟨h.1.slice, ih h.2⟩

end Tiled

/-! ### Reading a source -/

/-- The end marker is read where nothing is left. -/
theorem eq_nil_of_scanToken {text : List Char} (h : (scanToken text).outcome = .ok .eof) :
    text = [] := by
  unfold scanToken at h
  split at h
  · rfl
  · unfold scanString at h
    split at h
    · cases h
    · cases h
  · unfold scanDelimited at h
    split at h
    · dsimp only at h
      split at h
      · cases h
      · cases h
    · cases h
  · split at h
    · obtain ⟨kind, -⟩ | kind := scanNumber_ok h
      · cases kind
      · cases kind
    · split at h
      · unfold scanWord at h
        dsimp only at h
        split at h
        · cases h
        · cases h
      · unfold scanSymbol at h
        split at h
        case h_24 => contradiction
        all_goals cases h

/-- What is read next stands behind a gap at the beginning of the text, and the lexer goes on behind
it; the end marker is read where nothing is left, and is no text. -/
theorem Lexer.split_of_next {lexer following : Lexer} {token : Token}
    (h : lexer.next = (.ok token, following)) :
    ∃ gap, lexer.rest = gap ++ token.lexeme.toList ++ following.rest ∧
      IsGap gap (token.lexeme.toList ++ following.rest) ∧
      token.position = lexer.place.advance gap ∧
      following.place = token.position.advance token.lexeme.toList ∧
      token.span.stop = following.place.offset ∧
      (token.lexeme = "" ↔ token.kind = .eof) ∧ (token.kind = .eof → following.rest = []) := by
  unfold next at h
  simp only at h
  split at h
  · cases h
  · next closed =>
    obtain ⟨gap, whole, ends, place⟩ := exists_gap closed
    obtain ⟨answer, rfl⟩ := Prod.mk.inj h
    generalize skipGap .between lexer.place lexer.rest = skipped at *
    have parts := scanToken_append skipped.rest
    unfold Lexeme.answer at answer
    split at answer
    · next kind accepted =>
      cases answer
      have final : kind = .eof ↔ skipped.rest = [] := by
        constructor
        · rintro rfl
          exact eq_nil_of_scanToken accepted
        · intro empty
          rw [empty] at accepted
          exact (Except.ok.inj accepted).symm
      refine ⟨gap, ?_, ?_, place, congrArg _ String.toList_ofList.symm, rfl, ?_, fun ended => ?_⟩
      · rw [whole, String.toList_ofList, List.append_assoc, parts]
      · rwa [String.toList_ofList, parts]
      · refine Iff.trans ?_ final.symm
        constructor
        · intro empty
          by_contra nonempty
          exact scanToken_used_ne_nil nonempty (String.ofList_eq_empty_iff.mp empty)
        · intro empty
          rw [empty]
          rfl
      · show (scanToken skipped.rest).rest = []
        rw [final.mp ended]
        rfl
    · cases answer

/-- An error is reported at the place of some text that is left. -/
theorem Lexer.split_of_error {lexer following : Lexer} {error : LexError}
    (h : lexer.next = (.error error, following)) :
    ∃ front back, lexer.rest = front ++ back ∧ back ≠ [] ∧
      error.place = lexer.place.advance front := by
  unfold next at h
  simp only at h
  split at h
  · next opening unclosed =>
    cases h
    obtain same | ⟨front, back, whole, place⟩ := unclosed_place unclosed
    · cases same
    · exact ⟨front, _, whole, by simp, place⟩
  · next closed =>
    obtain ⟨gap, whole, -, place⟩ := exists_gap closed
    obtain ⟨answer, -⟩ := Prod.mk.inj h
    generalize skipGap .between lexer.place lexer.rest = skipped at *
    unfold Lexeme.answer at answer
    split at answer
    · cases answer
    · next fault refused =>
      cases answer
      refine ⟨gap, skipped.rest, whole, fun empty => ?_, place⟩
      rw [empty] at refused
      cases refused

/-- Has the lexer read the front part of the source, and kept its position? -/
structure Lexer.HasRead (lexer : Lexer) (front : List Char) (source : String) : Prop where
  /-- What is left makes up the source together with the front part. -/
  whole : source.toList = front ++ lexer.rest
  /-- The place of what is left was found by advancing over the front part. -/
  place : lexer.place = Position.origin.advance front

namespace Lexer.HasRead

variable {lexer following : Lexer} {front : List Char} {source : String} {token : Token}
  {tokens : List Token}

/-- One step: what is read next stands in the source, and the lexer goes on behind it. -/
theorem next (read : lexer.HasRead front source) (h : lexer.next = (.ok token, following)) :
    token.StandsBehind source (String.ofList front).utf8ByteSize ∧
      ∃ longer, following.HasRead longer source ∧
        token.span.stop = (String.ofList longer).utf8ByteSize := by
  obtain ⟨gap, whole, isGap, start, goesOn, stop, -, -⟩ := split_of_next h
  have start : token.position = Position.origin.advance (front ++ gap) := by
    rw [start, read.place, Position.advance_append]
  have behind := Position.behind_advance (front ++ gap ++ token.lexeme.toList)
  rw [Position.advance_append, ← start, ← goesOn] at behind
  have first := Position.behind_advance (front ++ gap)
  rw [← start] at first
  refine ⟨⟨String.ofList front, String.ofList gap, String.ofList following.rest, ?_, rfl, ?_, ?_, ?_⟩,
    front ++ gap ++ token.lexeme.toList, ⟨?_, ?_⟩, stop.trans behind.offset⟩
  · apply String.toList_injective
    simp [read.whole, whole]
  · simpa using isGap
  · rwa [← String.ofList_append]
  · rw [stop, behind.offset, String.ofList_append, String.utf8ByteSize_append,
      String.ofList_toList, ← first.offset]
    rfl
  · simp [read.whole, whole]
  · rw [Position.advance_append, ← start, goesOn]

/-- The tokens that are left make up the rest of the source. -/
theorem tiled (read : lexer.HasRead front source) (h : lexer.tokens = .ok tokens) :
    Tiled source (String.ofList front).utf8ByteSize tokens := by
  refine Lexer.tokens_induction (motive := fun lexer tokens => ∀ front,
    lexer.HasRead front source → Tiled source (String.ofList front).utf8ByteSize tokens)
    ?_ ?_ h front read
  · intro lexer token following hnext ends front read
    obtain ⟨stands, longer, goesOn, stop⟩ := read.next hnext
    obtain ⟨_, _, _, _, _, _, _, nothing⟩ := split_of_next hnext
    refine ⟨stands, ?_⟩
    have whole := goesOn.whole
    rw [nothing (of_decide_eq_true ends), List.append_nil] at whole
    rw [Tiled, stop, ← whole, String.ofList_toList]
  · intro lexer token following others hnext inner ih front read
    obtain ⟨stands, longer, goesOn, stop⟩ := read.next hnext
    refine ⟨stands, ?_⟩
    rw [stop]
    exact ih longer goesOn

/-- The tokens that are left are texts, apart from the last one, which marks the end of the source.
-/
theorem ends (read : lexer.HasRead front source) (h : lexer.tokens = .ok tokens) :
    ∃ others place, tokens = others ++ [.endAt place] ∧ place.Behind source ∧
      ∀ token ∈ others, token.kind ≠ .eof ∧ token.lexeme ≠ "" := by
  refine Lexer.tokens_induction (motive := fun lexer tokens => ∀ front,
    lexer.HasRead front source → ∃ others place, tokens = others ++ [.endAt place] ∧
      place.Behind source ∧ ∀ token ∈ others, token.kind ≠ .eof ∧ token.lexeme ≠ "")
    ?_ ?_ h front read
  · intro lexer token following hnext ends front read
    obtain ⟨gap, whole, -, start, goesOn, stop, text, nothing⟩ := split_of_next hnext
    have final : token.kind = .eof := of_decide_eq_true ends
    have empty : token.lexeme = "" := text.mpr final
    refine ⟨[], token.position, congrArg (· :: []) ?_, ?_, nofun⟩
    · obtain ⟨kind, lexeme, ⟨first, last⟩, line, column⟩ := token
      cases final
      cases empty
      obtain rfl : last = first := stop.trans (congrArg Position.offset goesOn)
      rfl
    · have behind := Position.behind_advance (front ++ gap)
      have whole : source.toList = front ++ gap := by
        rw [read.whole, whole, nothing final, empty]
        simp
      rwa [Position.advance_append, ← read.place, ← start, ← whole, String.ofList_toList] at behind
  · intro lexer token following others hnext inner ih front read
    obtain ⟨-, longer, goesOn, -⟩ := read.next hnext
    obtain ⟨others, place, rfl, behind, texts⟩ := ih longer goesOn
    obtain ⟨_, _, _, _, _, _, text, _⟩ := split_of_next hnext
    have more : token.kind ≠ .eof := of_decide_eq_false inner
    refine ⟨token :: others, place, rfl, behind, List.forall_mem_cons.mpr ⟨⟨more, ?_⟩, texts⟩⟩
    exact fun empty => more (text.mp empty)

/-- No two tokens that are left are the same: only the last one is an end marker, and the others have
texts. -/
theorem nodup (read : lexer.HasRead front source) (h : lexer.tokens = .ok tokens) : tokens.Nodup := by
  have tiled := read.tiled h
  obtain ⟨others, place, rfl, -, texts⟩ := read.ends h
  obtain ⟨inOrder, -, -⟩ := List.pairwise_append.mp tiled.ordered
  refine List.nodup_append.mpr ⟨?_, List.pairwise_singleton _ _, ?_⟩
  · refine (List.Pairwise.and_mem.mp inOrder).imp ?_
    rintro token _ ⟨found, -, -, apart⟩ rfl
    have stop := tiled.stop_eq token (List.mem_append_left _ found)
    have empty : token.lexeme.utf8ByteSize = 0 := by omega
    exact (texts token found).2 (String.utf8ByteSize_eq_zero_iff.mp empty)
  · rintro token found _ last rfl
    exact (texts token found).1 (List.mem_singleton.mp last ▸ rfl)

/-- If no token can be read, the error stands at a place of the source. -/
theorem error {error : LexError} (read : lexer.HasRead front source)
    (h : lexer.tokens = .error error) :
    ∃ front back : String, source = front ++ back ∧ back ≠ "" ∧ error.place.Behind front := by
  induction hlength : lexer.rest.length using Nat.strongRecOn generalizing lexer front with
  | ind length ih =>
    subst hlength
    rw [lexer.tokens_eq] at h
    split at h
    · next found following hnext =>
      cases h
      obtain ⟨inner, back, whole, nonempty, place⟩ := split_of_error hnext
      refine ⟨String.ofList (front ++ inner), String.ofList back, ?_, ?_, ?_⟩
      · apply String.toList_injective
        simp [read.whole, whole]
      · simpa using nonempty
      · rw [place, read.place, ← Position.advance_append]
        exact Position.behind_advance _
    · next token following hnext =>
      split at h
      · cases h
      · next inner =>
        have inner : token.isEnd = false := Bool.eq_false_iff.mpr inner
        obtain ⟨-, longer, goesOn, -⟩ := read.next hnext
        cases hothers : following.tokens with
        | ok others => rw [hothers] at h; cases h
        | error other =>
          rw [hothers] at h
          cases h
          exact ih _ (length_next_lt hnext inner) goesOn hothers rfl

end Lexer.HasRead

/-- Do the tokens tile the source: their spans lie one behind the other, each of them is the text of
its span and stands at the position that is counted there, what lies between them is a gap, and the
last one marks the end? -/
structure Tiling (source : String) (tokens : List Token) : Prop where
  /-- The tokens and the gaps in front of them make up the source. -/
  tiled : Tiled source 0 tokens
  /-- The spans lie one behind the other. -/
  ordered : tokens.Pairwise fun first second =>
    first.span.start ≤ first.span.stop ∧ first.span.stop ≤ second.span.start
  /-- The text of a token is what its span cuts out of the source. -/
  slices : ∀ token ∈ tokens,
    source.toByteArray.extract token.span.start token.span.stop = token.lexeme.toByteArray
  /-- All tokens are texts, apart from the last one, which marks the end of the source. -/
  ends : ∃ others place, tokens = others ++ [.endAt place] ∧ place.Behind source ∧
    ∀ token ∈ others, token.kind ≠ .eof ∧ token.lexeme ≠ ""

/-- The tokens of a source tile it; if it has none, the error stands at a position that is counted in
the source. -/
theorem tokenize_tiling (source : String) :
    match tokenize source with
    | .ok tokens => Tiling source tokens
    | .error error =>
      ∃ front back : String, source = front ++ back ∧ back ≠ "" ∧ error.place.Behind front := by
  have read : (Lexer.ofText source).HasRead [] source := ⟨rfl, rfl⟩
  split
  · next tokens h =>
    have tiled : Tiled source 0 tokens := read.tiled h
    exact ⟨tiled, tiled.ordered, tiled.slice, read.ends h⟩
  · next error h => exact read.error h

end Adql
