import Adql.Proofs.Grammar.Recovery

/-!
# What a parenthesis cannot start

No expression starts with `SELECT` or `WITH`, so what has one of these behind its parenthesis is no
expression (`rejects_parenthesized`).  No query starts with parentheses that end in front of anything
else, however many there are (`rejects_query`, by induction on the nesting of the rules), so what
starts with such a run of parentheses is no query (`rejects_scalarSubquery`).

A run that cannot yield a value `Rejects` the tokens.  It may still fail in more than one way: a limit
may end it, too.
-/

namespace Adql

open Adql.Parser Adql.Grammar Adql.Session

/-! ### Kinds ahead -/

namespace TokenCursor

/-- In front of the end, the kinds ahead are that of the current token and those behind it. -/
theorem kindsAhead_cons {cursor : TokenCursor} (inside : cursor.position < cursor.tokens.size) :
    cursor.kindsAhead = cursor.current.kind :: cursor.advance.kindsAhead := by
  have here : cursor.tokens.toList.drop cursor.position =
      cursor.current :: cursor.tokens.toList.drop (cursor.position + 1) := by
    rw [List.drop_eq_getElem_cons (by simpa using inside), current, tokenAt,
      Array.getElem?_eq_getElem inside]
    rfl
  rw [kindsAhead, here, advance, if_pos inside]
  rfl

/-- At the end, there is only the end marker. -/
theorem kindsAhead_end {cursor : TokenCursor} (beyond : cursor.tokens.size ≤ cursor.position) :
    cursor.kindsAhead = [cursor.current.kind] := by
  rw [kindsAhead, List.drop_eq_nil_of_le (by simpa using beyond), current, tokenAt,
    Array.getElem?_eq_none beyond]
  rfl

/-- In front of the end marker, there are tokens. -/
theorem inside_of_kind {cursor : TokenCursor} (ends : cursor.final.kind = .eof)
    (other : cursor.current.kind ≠ .eof) : cursor.position < cursor.tokens.size := by
  refine Nat.lt_of_not_le fun beyond => other ?_
  rw [current, tokenAt, Array.getElem?_eq_none beyond]
  exact ends

/-- The token behind the current one is the current one behind it. -/
theorem current_advance {cursor : TokenCursor} (inside : cursor.position < cursor.tokens.size) :
    cursor.advance.current = cursor.peek 1 := by
  rw [advance, if_pos inside]
  rfl

/-- The run of parentheses in front of the cursor ends where it does behind the first one. -/
theorem parenthesesOpenQuery_advance {cursor : TokenCursor}
    (inside : cursor.position < cursor.tokens.size) (opening : cursor.current.kind = .leftParen) :
    parenthesesOpenQuery cursor.advance.kindsAhead = parenthesesOpenQuery cursor.kindsAhead := by
  rw [kindsAhead_cons inside, opening]
  rfl

/-- Without a parenthesis, the current token is what the parentheses end in front of. -/
theorem parenthesesOpenQuery_kindsAhead {cursor : TokenCursor}
    (other : cursor.current.kind ≠ .leftParen) :
    parenthesesOpenQuery cursor.kindsAhead = startsQuery cursor.current.kind := by
  have head : ∃ rest, cursor.kindsAhead = cursor.current.kind :: rest := by
    rcases Nat.lt_or_ge cursor.position cursor.tokens.size with inside | beyond
    · exact ⟨_, kindsAhead_cons inside⟩
    · exact ⟨_, kindsAhead_end beyond⟩
  obtain ⟨rest, ahead⟩ := head
  rw [parenthesesOpenQuery, ahead, List.dropWhile_cons_of_neg (by simpa using other)]

/-- Behind a parenthesis, the run of parentheses ends in front of the next token, or this is another
parenthesis. -/
theorem parenthesesOpenQuery_eq_false {cursor : TokenCursor}
    (inside : cursor.position < cursor.tokens.size) (opening : cursor.current.kind = .leftParen)
    (word : startsQuery (cursor.peek 1).kind = false)
    (more : (cursor.peek 1).kind = .leftParen → parenthesesOpenQuery cursor.kindsAhead = false) :
    parenthesesOpenQuery cursor.kindsAhead = false := by
  by_cases next : (cursor.peek 1).kind = .leftParen
  · exact more next
  · rw [← current_advance inside] at next word
    rw [← parenthesesOpenQuery_advance inside opening, parenthesesOpenQuery_kindsAhead next]
    exact word

end TokenCursor

/-! ### Runs without a value -/

/-- The parser yields no value in the session. -/
def Rejects {α : Type} (p : Parser α) (before : Session) : Prop :=
  ∀ value after, p before ≠ .ok value after

namespace Rejects

variable {α β : Type} {p : Parser α} {f : α → Parser β} {before : Session} {kind : TokenKind}

/-- A sequence yields no value if its first part yields none. -/
theorem bind_left (h : Rejects p before) : Rejects (p >>= f) before := by
  intro value after run
  obtain ⟨a, session, first, _⟩ := bind_run_ok.mp run
  exact h a session first

/-- A sequence yields no value if its rest yields none. -/
theorem bind_right (h : ∀ a session, p before = .ok a session → Rejects (f a) session) :
    Rejects (p >>= f) before := by
  intro value after run
  obtain ⟨a, session, first, second⟩ := bind_run_ok.mp run
  exact h a session first value after second

/-- What is made of no value is no value. -/
theorem map {g : α → β} (h : Rejects p before) : Rejects (g <$> p) before := by
  rw [map_eq_pure_bind]
  exact h.bind_left

/-- Failing yields no value. -/
theorem fail : Rejects (Parser.fail : Parser α) before := by
  intro value after run
  cases run

/-- Failing with an expectation yields no value. -/
theorem failExpecting (kinds : List TokenKind) :
    Rejects (Parser.failExpecting kinds : Parser α) before :=
  bind_right fun _ _ _ => fail

/-- A test of the current token is answered, and then the rest yields no value. -/
theorem check_bind {f : Bool → Parser β}
    (found : before.current.kind = kind → Rejects (f true) before)
    (missed : before.current.kind ≠ kind → Rejects (f false) (before.noting kind)) :
    Rejects (check kind >>= f) before := by
  refine bind_right fun a session run => ?_
  rw [check_run] at run
  split at run
  · cases run
    exact found ‹_›
  · cases run
    exact missed ‹_›

/-- A token is eaten or not, and then the rest yields no value. -/
theorem eat_bind {f : Bool → Parser β}
    (found : before.current.kind = kind →
      Rejects (f true) { before with cursor := before.cursor.advance })
    (missed : before.current.kind ≠ kind → Rejects (f false) (before.noting kind)) :
    Rejects (eat kind >>= f) before := by
  refine bind_right fun a session run => ?_
  rw [eat_run] at run
  split at run
  · cases run
    exact found ‹_›
  · cases run
    exact missed ‹_›

/-- A token that has to be there is missing, or the rest yields no value. -/
theorem expect_bind {f : Token → Parser β}
    (found : before.current.kind = kind → ∀ token,
      Rejects (f token) { before with cursor := before.cursor.advance }) :
    Rejects (expect kind >>= f) before := by
  rw [expect, bind_assoc]
  refine check_bind (fun same => ?_) fun _ => bind_left fail
  refine bind_right fun token session run => ?_
  cases run
  exact found same before.current

/-- A rule yields no value if its body yields none where it may nest less deep. -/
theorem apply {lookahead : Bool} {allowance : Nat} {rule : Rule}
    (h : ∀ less inner, allowance = less + 1 → inner.cursor = before.cursor →
      Rejects (body lookahead (Grammar.apply lookahead less) rule) inner) :
    Rejects (Grammar.apply lookahead allowance rule) before := by
  have counted := cursor_countRule rule before
  cases allowance with
  | zero =>
    refine bind_right fun _ session _ => ?_
    intro value after run
    rw [refuseDepth_run] at run
    cases run
  | succ less =>
    refine bind_right fun _ session run => ?_
    rw [run] at counted
    intro value after run
    unfold nested at run
    split at run
    · next inner found =>
      exact h less (inside rule session) rfl counted _ _ found
    · cases run

end Rejects

section

variable {lookahead : Bool} {allowance : Nat} {before : Session}

/-- No expression starts with a word that starts a query. -/
theorem rejects_expression (starts : startsQuery before.current.kind = true) :
    Rejects (apply lookahead allowance .expression) before := by
  refine .apply fun less inner _ same => .apply fun less' inner' _ same' => ?_
  have current : inner'.current = before.current := by
    rw [Session.current, same', same, Session.current]
  have words : before.current.kind = .keyword .SELECT ∨ before.current.kind = .keyword .WITH := by
    unfold startsQuery at starts
    split at starts
    · next select => exact .inl select
    · next with_ => exact .inr with_
    · cases starts
  rw [← current] at words
  -- the word is no prefix operator and no literal, and starts no other operand either
  refine .bind_left (.bind_right fun kind session run => ?_)
  cases run
  rcases words with word | word
  · rw [word]
    refine Rejects.bind_right fun token session run => ?_
    cases run
    rw [Token.literal?, word]
    exact .failExpecting _
  · rw [word]
    refine Rejects.bind_right fun token session run => ?_
    cases run
    rw [Token.literal?, word]
    exact .failExpecting _

/-- No query starts with parentheses that end in front of anything but a word that starts one. -/
theorem rejects_query (ends : before.Ends)
    (other : parenthesesOpenQuery before.cursor.kindsAhead = false) :
    Rejects (apply lookahead allowance .query) before := by
  induction allowance using Nat.strongRecOn generalizing before with
  | ind allowance ih =>
    have noWord {session : Session} (same : session.cursor = before.cursor) :
        startsQuery session.current.kind = false := by
      rw [Session.current, same]
      by_cases opening : before.cursor.current.kind = .leftParen
      · rw [opening]
        rfl
      · rw [← TokenCursor.parenthesesOpenQuery_kindsAhead opening]
        exact other
    -- an operand of a set operator starts with `SELECT`, or with a parenthesis and a query
    have term (less : Nat) (fewer : less < allowance) (session : Session)
        (same : session.cursor = before.cursor) :
        Rejects (apply lookahead less .queryTerm) session := by
      refine .apply fun less' inner fewer' same' => ?_
      have here := same'.trans same
      refine .check_bind (fun select => ?_) fun _ => ?_
      · have none := noWord here
        rw [select] at none
        cases none
      · refine .eat_bind (fun opening => ?_) fun _ => .fail
        rw [Session.current, Session.cursor_noting, here] at opening
        have inside : before.cursor.position < before.cursor.tokens.size :=
          TokenCursor.inside_of_kind ends (by rw [opening]; decide)
        refine .bind_left (ih less' (by omega) ?_ ?_)
        · change (inner.noting _).cursor.advance.final.kind = .eof
          rw [Session.cursor_noting, here, TokenCursor.advance, if_pos inside]
          exact ends
        · change parenthesesOpenQuery (inner.noting _).cursor.advance.kindsAhead = false
          rw [Session.cursor_noting, here,
            TokenCursor.parenthesesOpenQuery_advance inside opening]
          exact other
    refine .apply fun less inner fewer same => ?_
    change Rejects ((eat (.keyword .WITH) >>= fun found => _) >>= _) inner
    rw [bind_assoc]
    refine .eat_bind (fun with_ => ?_) fun _ => ?_
    · have none := noWord same
      rw [with_] at none
      cases none
    · refine .bind_right fun tables session run => ?_
      cases run
      refine .bind_left (.apply fun less' inner' fewer' same' => .bind_left (.bind_left ?_))
      exact term less' (by omega) inner' (same'.trans ((Session.cursor_noting _ _).trans same))

/-- What starts with a parenthesis is no query if the parentheses end in front of anything but a
word that starts one. -/
theorem rejects_scalarSubquery (ends : before.Ends)
    (other : before.current.kind = .leftParen →
      parenthesesOpenQuery before.cursor.kindsAhead = false) :
    Rejects (apply lookahead allowance .scalarSubquery) before := by
  refine .apply fun less inner _ same => .map (.expect_bind fun opening _ => .bind_left ?_)
  rw [Session.current, same] at opening
  have inside : before.cursor.position < before.cursor.tokens.size :=
    TokenCursor.inside_of_kind ends (by rw [opening]; decide)
  refine rejects_query ?_ ?_
  · change inner.cursor.advance.final.kind = .eof
    rw [same, TokenCursor.advance, if_pos inside]
    exact ends
  · change parenthesesOpenQuery inner.cursor.advance.kindsAhead = false
    rw [same, TokenCursor.parenthesesOpenQuery_advance inside opening]
    exact other opening

/-- What starts with a parenthesis and a word that starts a query is no expression. -/
theorem rejects_parenthesized (ends : before.Ends)
    (starts : startsQuery (before.cursor.peek 1).kind = true) :
    Rejects (apply lookahead allowance .parenthesized) before := by
  refine .apply fun less inner _ same => .map (.expect_bind fun opening _ => .bind_left ?_)
  rw [Session.current, same] at opening
  have inside : before.cursor.position < before.cursor.tokens.size :=
    TokenCursor.inside_of_kind ends (by rw [opening]; decide)
  refine rejects_expression ?_
  change startsQuery inner.cursor.advance.current.kind = true
  rw [same, TokenCursor.current_advance inside]
  exact starts

end

end Adql
