import Mathlib.Order.Bounds.Defs
import Adql.Grammar.Parser

/-!
# Resynchronization

After a failure the parse goes on at the first token of certain kinds that stands outside all
parentheses, or at the end.  Which parentheses belong together is said by a stack of the open ones.
The parser keeps no such stack: it looks ahead once for each parenthesis it passes, and counts.

What ties both together is that the count is the number of pairs that are open in front of a token
and closed behind it (`openPairs`).  One more token keeps this (`exists_stack_behind`), and the
theorem follows by induction over the tokens that are skipped.
-/

namespace Adql

open Adql.Parser

/-! ### Pairs of parentheses -/

/-- The positions of the parentheses that belong together, where the open ones in front of the
tokens are given, innermost first.  A closing one belongs to the innermost one that is open; one
that is never closed and one that was never opened belong to none. -/
def pairedParentheses : (position : Nat) → (opened : List Nat) → List TokenKind → List (Nat × Nat)
  | _, _, [] => []
  | position, opened, .leftParen :: rest => pairedParentheses (position + 1) (position :: opened) rest
  | position, opening :: opened, .rightParen :: rest =>
    (opening, position) :: pairedParentheses (position + 1) opened rest
  | position, opened, _ :: rest => pairedParentheses (position + 1) opened rest

/-- Is a token between the parentheses of a pair? -/
def IsEnclosed (pairs : List (Nat × Nat)) (position : Nat) : Prop :=
  ∃ pair ∈ pairs, pair.1 < position ∧ position ≤ pair.2

/-- The number of pairs that are open in front of a position. -/
def openPairs (position : Nat) (pairs : List (Nat × Nat)) : Nat :=
  pairs.countP fun pair => pair.1 < position

/-- May the parse go on at a token of a kind?  It may at the end, and where the kind is one of those
to look for, not in front of the failure and not in parentheses. -/
def CanResume (sync : List TokenKind) (failedAt : Nat) (pairs : List (Nat × Nat)) (position : Nat)
    (kind : TokenKind) : Prop :=
  kind = .eof ∨ failedAt ≤ position ∧ kind ∈ sync ∧ ¬IsEnclosed pairs position

section Pairs

variable {position : Nat} {opened : List Nat} {kind : TokenKind} {rest : List TokenKind}

/-- Other tokens open and close nothing. -/
theorem pairedParentheses_other (left : kind ≠ .leftParen) (right : kind ≠ .rightParen) :
    pairedParentheses position opened (kind :: rest) =
      pairedParentheses (position + 1) opened rest := by
  rw [pairedParentheses]
  · exact left
  · intro _ _ _ closing
    exact right closing

/-- The pairs are opened by parentheses that are open already, or at a token that is to come, and
they are closed at a token that is to come. -/
theorem mem_pairedParentheses {pair : Nat × Nat} {kinds : List TokenKind}
    (member : pair ∈ pairedParentheses position opened kinds) :
    (pair.1 ∈ opened ∨ position ≤ pair.1) ∧ position ≤ pair.2 := by
  fun_induction pairedParentheses position opened kinds with
  | case1 => simp at member
  | case2 position opened rest ih =>
    obtain ⟨opening, closing⟩ := ih member
    refine ⟨?_, by omega⟩
    rcases opening with opening | later
    · rcases List.mem_cons.mp opening with here | opening
      · exact .inr (Nat.le_of_eq here.symm)
      · exact .inl opening
    · exact .inr (by omega)
  | case3 position opening opened rest ih =>
    rcases List.mem_cons.mp member with rfl | member
    · exact ⟨.inl List.mem_cons_self, Nat.le_refl _⟩
    · obtain ⟨first, closing⟩ := ih member
      exact ⟨first.imp (List.mem_cons_of_mem _) (by omega), by omega⟩
  | case4 position opened kind rest _ _ ih =>
    obtain ⟨first, closing⟩ := ih member
    exact ⟨first.imp id (by omega), by omega⟩

/-- Where nothing is opened, as many pairs are open as one token further on. -/
theorem openPairs_succ (rest : List TokenKind) {place : Nat}
    (behind : ∀ opening ∈ opened, opening < place) (ahead : place < position) :
    openPairs (place + 1) (pairedParentheses position opened rest) =
      openPairs place (pairedParentheses position opened rest) := by
  refine List.countP_congr fun pair member => ?_
  have elsewhere : pair.1 ≠ place := by
    rcases (mem_pairedParentheses member).1 with opening | later
    · exact Nat.ne_of_lt (behind _ opening)
    · omega
  simp only [decide_eq_true_eq]
  omega

/-- A parenthesis that is closed further on opens a pair, with those inside it still open. -/
theorem openPairs_opening (rest : List TokenKind) (above below : List Nat) {opening : Nat}
    (inner : ∀ place ∈ above, opening < place) (outer : ∀ place ∈ below, place < opening)
    (ahead : opening < position) :
    openPairs (opening + 1) (pairedParentheses position (above ++ opening :: below) rest) =
      openPairs opening (pairedParentheses position (above ++ opening :: below) rest) +
        if closesParenthesis above.length rest then 1 else 0 := by
  induction rest generalizing position above with
  | nil => simp [pairedParentheses, openPairs, closesParenthesis]
  | cons kind rest ih =>
    by_cases left : kind = .leftParen
    · subst left
      simp only [pairedParentheses, closesParenthesis]
      refine ih (position :: above) ?_ (by omega)
      exact List.forall_mem_cons.mpr ⟨ahead, inner⟩
    by_cases right : kind = .rightParen
    · subst right
      cases above with
      | nil =>
        have same := openPairs_succ rest outer (Nat.lt_succ_of_lt ahead)
        simp only [openPairs] at same
        simp only [List.nil_append, pairedParentheses, openPairs]
        rw [List.countP_cons_of_pos (by simp), List.countP_cons_of_neg (by simp), same]
        rfl
      | cons place above =>
        obtain ⟨here, inner⟩ := List.forall_mem_cons.mp inner
        have tail := ih above inner (Nat.lt_succ_of_lt ahead)
        simp only [openPairs] at tail
        simp only [List.cons_append, pairedParentheses, closesParenthesis, openPairs,
          List.length_cons]
        have later : ¬place < opening + 1 := Nat.not_lt_of_le here
        have behind : ¬place < opening := Nat.not_lt_of_le (Nat.le_of_lt here)
        rw [List.countP_cons_of_neg (by simpa only [decide_eq_true_eq] using later),
          List.countP_cons_of_neg (by simpa only [decide_eq_true_eq] using behind), tail]
    · rw [pairedParentheses_other left right]
      have passed : closesParenthesis above.length (kind :: rest) =
          closesParenthesis above.length rest := by
        cases above <;> simp [closesParenthesis, right]
      rw [passed]
      exact ih above inner (Nat.lt_succ_of_lt ahead)

/-- Behind one more token there is a stack again whose pairs are the ones that are counted, and that
enclose the same tokens further on. -/
theorem exists_stack_behind (kind : TokenKind) (rest : List TokenKind)
    (behind : ∀ opening ∈ opened, opening < position) :
    ∃ stack : List Nat, (∀ opening ∈ stack, opening < position + 1) ∧
      depthBehind (openPairs position (pairedParentheses position opened (kind :: rest))) kind rest =
        openPairs (position + 1) (pairedParentheses (position + 1) stack rest) ∧
      ∀ place, position < place →
        (IsEnclosed (pairedParentheses position opened (kind :: rest)) place ↔
          IsEnclosed (pairedParentheses (position + 1) stack rest) place) := by
  have earlier : ∀ opening ∈ opened, opening < position + 1 := fun opening member =>
    Nat.lt_succ_of_lt (behind opening member)
  by_cases left : kind = .leftParen
  · subst left
    refine ⟨position :: opened, List.forall_mem_cons.mpr ⟨Nat.lt_succ_self _, earlier⟩, ?_, ?_⟩
    · have count := openPairs_opening rest [] opened (by simp) behind
        (Nat.lt_succ_self position)
      rw [List.nil_append, List.length_nil] at count
      rw [count]
      simp only [depthBehind, pairedParentheses]
      split <;> rfl
    · intro place _
      rw [pairedParentheses]
  by_cases right : kind = .rightParen
  · subst right
    cases opened with
    | nil =>
      refine ⟨[], by simp, ?_, ?_⟩
      · have closed : openPairs position (pairedParentheses (position + 1) [] rest) = 0 := by
          refine List.countP_eq_zero.mpr fun pair member => ?_
          rcases (mem_pairedParentheses member).1 with opening | later
          · simp at opening
          · simpa using Nat.le_of_succ_le later
        rw [openPairs_succ rest (by simp) (Nat.lt_succ_self position), closed]
        simp [depthBehind, pairedParentheses, closed]
      · intro place _
        simp [pairedParentheses]
    | cons opening opened =>
      obtain ⟨first, others⟩ := List.forall_mem_cons.mp behind
      refine ⟨opened, (List.forall_mem_cons.mp earlier).2, ?_, ?_⟩
      · rw [openPairs_succ rest others (Nat.lt_succ_self position)]
        simp [depthBehind, pairedParentheses, openPairs, first]
      · intro place later
        have passed : ¬place ≤ position := Nat.not_le_of_lt later
        simp [pairedParentheses, IsEnclosed, passed]
  · refine ⟨opened, earlier, ?_, ?_⟩
    · have same : depthBehind (openPairs position
          (pairedParentheses position opened (kind :: rest))) kind rest =
          openPairs position (pairedParentheses position opened (kind :: rest)) := by
        unfold depthBehind
        split <;> simp_all
      rw [same, pairedParentheses_other left right]
      exact (openPairs_succ rest behind (Nat.lt_succ_self position)).symm
    · intro place _
      rw [pairedParentheses_other left right]

/-! ### Skipping -/

/-- A token is outside of all parentheses if none is open in front of it. -/
theorem isEnclosed_iff {kinds : List TokenKind} :
    IsEnclosed (pairedParentheses position opened kinds) position ↔
      openPairs position (pairedParentheses position opened kinds) ≠ 0 := by
  unfold openPairs IsEnclosed
  rw [Ne, List.countP_eq_zero]
  constructor
  · rintro ⟨pair, member, opening, _⟩ closed
    exact closed pair member (decide_eq_true opening)
  · intro notClosed
    rw [Classical.not_forall] at notClosed
    obtain ⟨pair, notClosed⟩ := notClosed
    rw [Classical.not_imp, Classical.not_not] at notClosed
    obtain ⟨member, opening⟩ := notClosed
    exact ⟨pair, member, of_decide_eq_true opening, (mem_pairedParentheses member).2⟩

/-- As many tokens are skipped as there are in front of the first one at which the parse may go
on. -/
theorem isLeast_skipCount (sync : List TokenKind) (failedAt : Nat) (kinds : List TokenKind)
    (behind : ∀ opening ∈ opened, opening < position) :
    IsLeast {skipped | CanResume sync failedAt (pairedParentheses position opened kinds)
        (position + skipped) (kinds[skipped]?.getD .eof)}
      (skipCount sync failedAt position
        (openPairs position (pairedParentheses position opened kinds)) kinds) := by
  induction kinds generalizing position opened with
  | nil => exact ⟨.inl rfl, fun skipped _ => Nat.zero_le skipped⟩
  | cons kind rest ih =>
    rw [skipCount]
    split
    · next ended => exact ⟨.inl ended, fun skipped _ => Nat.zero_le skipped⟩
    split
    · next stop =>
      obtain ⟨outside, reached, wanted⟩ := stop
      refine ⟨.inr ⟨reached, wanted, ?_⟩, fun skipped _ => Nat.zero_le skipped⟩
      exact fun enclosed => isEnclosed_iff.mp enclosed outside
    · next more passed =>
      obtain ⟨stack, earlier, count, same⟩ := exists_stack_behind kind rest behind
      obtain ⟨resumes, least⟩ := ih earlier
      -- behind this token, the parse may go on at the same places as with the stack behind it
      have shifted : ∀ skipped,
          CanResume sync failedAt (pairedParentheses position opened (kind :: rest))
            (position + (skipped + 1)) ((kind :: rest)[skipped + 1]?.getD .eof) ↔
          CanResume sync failedAt (pairedParentheses (position + 1) stack rest)
            (position + 1 + skipped) (rest[skipped]?.getD .eof) := by
        intro skipped
        rw [show position + (skipped + 1) = position + 1 + skipped by omega,
          List.getElem?_cons_succ, CanResume, CanResume, same _ (by omega)]
      rw [count]
      constructor
      · exact (shifted _).mpr resumes
      · rintro (_ | skipped) resumed
        · rcases resumed with ended | ⟨reached, wanted, outside⟩
          · exact absurd ended more
          · rw [Nat.add_zero, isEnclosed_iff, Classical.not_not] at outside
            exact absurd ⟨outside, reached, wanted⟩ passed
        · exact Nat.succ_le_succ (least ((shifted skipped).mp resumed))

end Pairs

/-! ### Cursors -/

namespace TokenCursor

/-- The pairs of parentheses among the tokens from the cursor on. -/
def parenthesesAhead (cursor : TokenCursor) : List (Nat × Nat) :=
  pairedParentheses cursor.position [] cursor.kindsAhead

/-- May the parse go on at a position? -/
def CanResumeAt (cursor : TokenCursor) (sync : List TokenKind) (failedAt position : Nat) : Prop :=
  CanResume sync failedAt cursor.parenthesesAhead position (cursor.tokenAt position).kind

/-- The last token is an end marker, and one is added if it is none. -/
theorem final_ofTokens (tokens : List Token) : (ofTokens tokens).final.kind = .eof := by
  unfold ofTokens
  split
  · next last _ =>
    split
    · next ended => simpa [Token.isEnd] using ended
    · rfl
  · rfl

/-- The kinds ahead are those of the tokens at the positions from the cursor on. -/
theorem getElem?_kindsAhead (cursor : TokenCursor) (ended : cursor.final.kind = .eof)
    (ahead : Nat) :
    cursor.kindsAhead[ahead]?.getD .eof = (cursor.tokenAt (cursor.position + ahead)).kind := by
  unfold kindsAhead tokenAt
  by_cases inside : cursor.position + ahead < cursor.tokens.size
  · rw [List.getElem?_append_left (by simp; omega)]
    simp [inside]
  · have beyond : cursor.tokens.size - cursor.position ≤ ahead := by omega
    rw [List.getElem?_append_right (by simpa using beyond)]
    rw [Array.getElem?_eq_none (Nat.le_of_not_lt inside), Option.getD_none, ended]
    cases (ahead - ((cursor.tokens.toList.drop cursor.position).map (·.kind)).length) <;> simp

/-- As many tokens are skipped as there are in front of the first one at which the parse may go
on. -/
theorem isLeast_skipped (cursor : TokenCursor) (ended : cursor.final.kind = .eof)
    (sync : List TokenKind) (failedAt : Nat) :
    IsLeast {position | cursor.position ≤ position ∧ cursor.CanResumeAt sync failedAt position}
      (cursor.position + cursor.skipped sync failedAt) := by
  have closed : openPairs cursor.position cursor.parenthesesAhead = 0 := by
    refine List.countP_eq_zero.mpr fun pair member => ?_
    rcases (mem_pairedParentheses member).1 with opening | later
    · simp at opening
    · simpa using later
  have least : IsLeast {skipped | CanResume sync failedAt cursor.parenthesesAhead
      (cursor.position + skipped) (cursor.kindsAhead[skipped]?.getD .eof)}
      (skipCount sync failedAt cursor.position
        (openPairs cursor.position cursor.parenthesesAhead) cursor.kindsAhead) :=
    isLeast_skipCount sync failedAt cursor.kindsAhead (by simp)
  rw [closed] at least
  simp only [getElem?_kindsAhead cursor ended] at least
  obtain ⟨resumes, first⟩ := least
  constructor
  · exact ⟨Nat.le_add_right _ _, resumes⟩
  · rintro position ⟨ahead, resumed⟩
    obtain ⟨skipped, rfl⟩ := Nat.exists_eq_add_of_le ahead
    exact Nat.add_le_add_left (first resumed) _

end TokenCursor

/-- Resynchronization moves the cursor to the first token from it on at which the parse may go on,
tells how many tokens that skips, and changes nothing else. -/
theorem Parser.resynchronize_isLeast (tokens : List Token) (start failedAt : Nat)
    (sync : List TokenKind) (session : Session) :
    let cursor := (TokenCursor.ofTokens tokens).moveTo start
    ∃ stop,
      IsLeast {position | start ≤ position ∧ cursor.CanResumeAt sync failedAt position} stop ∧
      resynchronize sync failedAt { session with cursor := cursor } =
        .ok (stop - start) { session with cursor := cursor.moveTo stop } := by
  intro cursor
  have least := cursor.isLeast_skipped (TokenCursor.final_ofTokens tokens) sync failedAt
  refine ⟨start + cursor.skipped sync failedAt, least, ?_⟩
  rw [Nat.add_sub_cancel_left]
  rfl

end Adql
