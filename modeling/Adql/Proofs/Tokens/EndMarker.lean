import Adql.Proofs.Tokens.Tiling
import Adql.Token.Cursor

/-!
# End markers that are added

A cursor over tokens without an end marker adds one behind the last token.  It counts the characters of
that token as columns of its line, whereas the lexer counted lines, too.  Both arrive at the same offset
(`TokenCursor.span_added`), and at the same line and column if no newline stands in the last token, and
only then (`TokenCursor.added_end_iff`).
-/

namespace Adql

/-! ### Counting lines and columns -/

namespace Position

/-- The line behind some characters is larger by the newlines among them. -/
theorem line_advance (start : Position) (text : List Char) :
    (start.advance text).line = start.line + text.count '\n' := by
  induction text generalizing start with
  | nil => rfl
  | cons c text ih =>
    rw [advance_cons, ih, after]
    split
    · next newline =>
      rw [newline, List.count_cons_self]
      show start.line + 1 + _ = _
      omega
    · next other => rw [List.count_cons_of_ne other]

/-- On one line, the column behind some characters is larger by their number. -/
theorem column_advance {text : List Char} (single : '\n' ∉ text) (start : Position) :
    (start.advance text).column = start.column + text.length := by
  induction text generalizing start with
  | nil => rfl
  | cons c text ih =>
    obtain ⟨other, others⟩ := List.ne_and_not_mem_of_not_mem_cons single
    rw [advance_cons, ih others, after, if_neg (Ne.symm other), List.length_cons]
    show start.column + 1 + _ = _
    omega

/-- The position behind a text is found by advancing over it. -/
theorem Behind.eq {place : Position} {front : String} (h : place.Behind front) :
    place = origin.advance front.toList := by
  have counted := behind_advance front.toList
  rw [String.ofList_toList] at counted
  obtain ⟨offset, line, column⟩ := place
  have sameOffset := h.offset.trans counted.offset.symm
  have sameLine := h.line.trans counted.line.symm
  have sameColumn := h.column.trans counted.column.symm
  simp only at sameOffset sameLine sameColumn
  rw [sameOffset, sameLine, sameColumn]

end Position

/-! ### The last token and the end -/

/-- Each of the tokens that make up a source stands in it. -/
theorem Tiled.stands {source : String} {start : Nat} {tokens : List Token}
    (h : Tiled source start tokens) : ∀ token ∈ tokens, ∃ offset, token.StandsBehind source offset := by
  induction tokens generalizing start with
  | nil => exact nofun
  | cons token tokens ih => exact List.forall_mem_cons.mpr ⟨⟨start, h.1⟩, ih h.2⟩

/-- If the last token of a source closes it, the end marker stands at the position behind its text. -/
theorem final_eq_of_closes {source : String} {front : List Token} {last final : Token}
    (h : tokenize source = .ok (front ++ [last, final]))
    (closes : last.span.stop = source.utf8ByteSize) :
    final = .endAt (last.position.advance last.lexeme.toList) ∧ last.kind ≠ .eof ∧
      last.span.stop = (last.position.advance last.lexeme.toList).offset := by
  have tiling := tokenize_tiling source
  rw [h] at tiling
  obtain ⟨others, place, split, behind, texts⟩ := tiling.ends
  have split : (front ++ [last]) ++ [final] = others ++ [.endAt place] := by simpa using split
  obtain ⟨rfl, marker⟩ := List.append_inj' split rfl
  obtain rfl : final = .endAt place := List.singleton_injective marker
  obtain ⟨_, before, gap, back, whole, -, -, position, stop⟩ :=
    tiling.tiled.stands last (List.mem_append_right _ List.mem_cons_self)
  have start : last.span.start = (before ++ gap).utf8ByteSize := position.offset
  have none : back = "" := by
    refine String.utf8ByteSize_eq_zero_iff.mp ?_
    have bytes := congrArg String.utf8ByteSize whole
    simp only [String.utf8ByteSize_append] at bytes start
    omega
  have reached : place = last.position.advance last.lexeme.toList := by
    rw [behind.eq, position.eq, ← Position.advance_append, whole, none]
    simp
  have more := (texts last (List.mem_append_right _ List.mem_cons_self)).1
  refine ⟨congrArg Token.endAt reached, more, ?_⟩
  rw [← reached, closes, behind.offset]

namespace TokenCursor

/-- Tokens without an end marker get one. -/
theorem ofTokens_added (front : List Token) {last : Token} (more : last.kind ≠ .eof) :
    ofTokens (front ++ [last]) = ⟨(front ++ [last]).toArray, endBehind (some last), 0⟩ := by
  have inner : last.isEnd = false := decide_eq_false more
  rw [ofTokens, List.getLast?_concat]
  simp only [inner, Bool.false_eq_true, if_false]

/-- Tokens with an end marker keep it. -/
theorem ofTokens_ended (front : List Token) {last : Token} (ended : last.kind = .eof) :
    ofTokens (front ++ [last]) = ⟨front.toArray, last, 0⟩ := by
  have final : last.isEnd = true := decide_eq_true ended
  rw [ofTokens, List.getLast?_concat]
  simp only [final, if_true, List.dropLast_concat]

/-- Without the end marker of the lexer, a source that its last token closes has the same tokens, and the
end marker that is added has the same bytes; it is that of the lexer if no newline stands in the last
token, and only then. -/
theorem added_end_iff {source : String} {front : List Token} {last final : Token}
    (h : tokenize source = .ok (front ++ [last, final]))
    (closes : last.span.stop = source.utf8ByteSize) :
    (ofTokens (front ++ [last])).tokens = (ofTokens (front ++ [last, final])).tokens ∧
      (ofTokens (front ++ [last])).final.span = final.span ∧
      (ofTokens (front ++ [last, final])).final = final ∧
      (ofTokens (front ++ [last]) = ofTokens (front ++ [last, final]) ↔
        '\n' ∉ last.lexeme.toList) := by
  obtain ⟨marker, more, stop⟩ := final_eq_of_closes h closes
  have ended : final.kind = .eof := by rw [marker]; rfl
  have kept : ofTokens (front ++ [last, final]) = ⟨(front ++ [last]).toArray, final, 0⟩ := by
    have keeps := ofTokens_ended (front ++ [last]) ended
    rwa [List.append_assoc] at keeps
  rw [kept, ofTokens_added front more]
  refine ⟨rfl, ?_, rfl, ?_, ?_⟩
  · rw [marker, endBehind, stop]
    rfl
  · intro same newline
    have final_eq := congrArg TokenCursor.final same
    rw [marker] at final_eq
    have line : last.line = (last.position.advance last.lexeme.toList).line :=
      congrArg Token.line final_eq
    rw [Position.line_advance] at line
    have some := List.count_pos_iff.mpr newline
    have here : last.position.line = last.line := rfl
    omega
  · intro single
    have line := last.position.line_advance last.lexeme.toList
    rw [List.count_eq_zero.mpr single, Nat.add_zero] at line
    have column := Position.column_advance single last.position
    have place : (⟨last.span.stop, last.line, last.column + last.lexeme.length⟩ : Position) =
        ⟨(last.position.advance last.lexeme.toList).offset,
          (last.position.advance last.lexeme.toList).line,
          (last.position.advance last.lexeme.toList).column⟩ := by
      rw [stop, line, column, String.length_toList]
      rfl
    rw [marker, endBehind, place]

/-- A last token of letters of several bytes has its end marker where the lexer has it. -/
theorem added_end_iff_accented :
    tokenize "'é' ê" = .ok ([⟨.string, "'é'", ⟨0, 4⟩, 0, 0⟩] ++
        [⟨.identifier, "ê", ⟨5, 7⟩, 0, 4⟩, .endAt ⟨7, 0, 5⟩]) ∧
      7 = "'é' ê".utf8ByteSize ∧
      ofTokens [⟨.string, "'é'", ⟨0, 4⟩, 0, 0⟩, ⟨.identifier, "ê", ⟨5, 7⟩, 0, 4⟩] =
        ofTokens [⟨.string, "'é'", ⟨0, 4⟩, 0, 0⟩, ⟨.identifier, "ê", ⟨5, 7⟩, 0, 4⟩,
          .endAt ⟨7, 0, 5⟩] := by
  have cut : tokenize "'é' ê" = .ok ([⟨.string, "'é'", ⟨0, 4⟩, 0, 0⟩] ++
      [⟨.identifier, "ê", ⟨5, 7⟩, 0, 4⟩, .endAt ⟨7, 0, 5⟩]) := by decide +kernel
  refine ⟨cut, by decide +kernel, ?_⟩
  exact (added_end_iff cut (by decide +kernel)).2.2.2.mpr (by decide +kernel)

/-- Behind a string literal of two lines, the added end marker stands on the first line, and that of the
lexer on the second. -/
theorem added_end_misplaced :
    tokenize "'a\nb'" = .ok [⟨.string, "'a\nb'", ⟨0, 5⟩, 0, 0⟩, .endAt ⟨5, 1, 2⟩] ∧
      5 = "'a\nb'".utf8ByteSize ∧
      (ofTokens [⟨.string, "'a\nb'", ⟨0, 5⟩, 0, 0⟩]).final = .endAt ⟨5, 0, 5⟩ ∧
      (ofTokens [⟨.string, "'a\nb'", ⟨0, 5⟩, 0, 0⟩, .endAt ⟨5, 1, 2⟩]).final = .endAt ⟨5, 1, 2⟩ := by
  refine ⟨by decide +kernel, by decide +kernel, by decide +kernel, by decide +kernel⟩

end TokenCursor

end Adql
