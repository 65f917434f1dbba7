import Adql.Proofs.Composition.Conditions
import Adql.Proofs.Composition.Statements

/-!
# Queries behind `IN`

Behind `EXISTS` and a parenthesis, a query is read whatever it starts with.  Behind `IN` and a
parenthesis, one token decides: in front of `SELECT` or `WITH` a query is read, and in front of
anything else a list of expressions.  A query that starts with a parenthesis is read as a list all the
same if it is nothing but a query in parentheses, as that is an expression (`reads_inTail`); if it goes
on behind its first operand, no list is read (`inTail_never`).

Which of the two it is can be seen from the tokens: the parenthesis that closes the first operand is the
first one behind it that is not opened behind it (`kindsBehindClosing_of_reads`), as the query rule
would take any earlier one for the end of the query.  So it is known exactly which texts that stand
behind `EXISTS` can stand behind `IN` (`parses_membership`).
-/

namespace Adql

open Adql.Parser Adql.Grammar

/-! ### What stands behind the parenthesis -/

/-- The kinds behind the token that closes a parenthesis, with so many parentheses open inside. -/
def kindsBehindClosing : Nat → List TokenKind → List TokenKind
  | _, [] => []
  | inner, .leftParen :: rest => kindsBehindClosing (inner + 1) rest
  | 0, .rightParen :: rest => rest
  | inner + 1, .rightParen :: rest => kindsBehindClosing inner rest
  | inner, _ :: rest => kindsBehindClosing inner rest

/-- Of a query that starts with such kinds, in front of a closing parenthesis: does it start with a
word, or is it nothing but a query in parentheses? -/
def opensMembership : List TokenKind → Bool
  | [] => false
  | .leftParen :: rest => (kindsBehindClosing 0 rest).head? = some .rightParen
  | kind :: _ => startsQuery kind

/-- Can the text of a query stand in a parenthesis behind `IN`, as its tokens show? -/
def canBeMembership (query : String) : Bool :=
  match tokenize (query ++ ")") with
  | .ok tokens => opensMembership (tokens.map (·.kind))
  | .error _ => false

section

variable {words behind rest : List Word} {query : Query} {opening closing : Word} {allowance : Nat}

/-- Words that close as many parentheses as are open, but not all of them in front of a closing
parenthesis, stand in front of the one that is looked for. -/
theorem kindsBehindClosing_append {inner : Nat} (more : List TokenKind)
    (closes : balance words = inner)
    (first : ∀ front word rest, words = front ++ word :: rest → word.kind = .rightParen →
      balance front ≠ inner) :
    kindsBehindClosing inner (words.map (·.kind) ++ .rightParen :: more) = more := by
  induction words generalizing inner with
  | nil =>
    obtain rfl : inner = 0 := by
      rw [balance_nil] at closes
      omega
    rfl
  | cons word words ih =>
    have later (front : List Word) (word' : Word) (rest : List Word)
        (split : words = front ++ word' :: rest) (hkind : word'.kind = .rightParen) :
        balance (word :: front) ≠ inner :=
      first (word :: front) word' rest (by rw [split, List.cons_append]) hkind
    rw [List.map_cons, List.cons_append]
    by_cases opens : word.kind = .leftParen
    · rw [balance_opening words opens] at closes
      rw [opens, kindsBehindClosing]
      refine ih (by omega) fun front word' rest split hkind same => later front word' rest split hkind ?_
      rw [balance_opening front opens]
      omega
    · by_cases ends : word.kind = .rightParen
      · have inside := first [] word words rfl ends
        rw [balance_nil] at inside
        obtain ⟨inner, rfl⟩ : ∃ less, inner = less + 1 := ⟨inner - 1, by omega⟩
        rw [balance_closing words ends] at closes
        rw [ends, kindsBehindClosing]
        refine ih (by omega) fun front word' rest split hkind same =>
          later front word' rest split hkind ?_
        rw [balance_closing front ends]
        omega
      · have plain (front : List Word) : balance (word :: front) = balance front := by
          rw [balance, if_neg ends, if_neg opens]
          omega
        have skip : kindsBehindClosing inner
              (word.kind :: (words.map (·.kind) ++ .rightParen :: more)) =
            kindsBehindClosing inner (words.map (·.kind) ++ .rightParen :: more) := by
          rw [kindsBehindClosing]
          · exact opens
          · exact fun _ same => absurd same ends
          · exact fun _ _ same => absurd same ends
        rw [plain] at closes
        rw [skip]
        exact ih closes fun front word' rest split hkind => plain front ▸ later front word' rest split hkind

/-- A rule leaves the last ones of its words. -/
theorem Reads.suffix {rule : Rule} {value : rule.Result}
    (h : Reads (Grammar.apply true allowance rule) words value rest) : rest <:+ words := by
  have faces := Session.faces_facing words .adql
  obtain ⟨after, hrun, hafter⟩ := h _ _ faces
  have suffix := (((apply_moving true allowance rule).1 _).follows_ok hrun).words_suffix
  rwa [hafter.words_eq, faces.words_eq] at suffix

/-- Behind a parenthesis a query is read up to the token that closes the parenthesis. -/
theorem kindsBehindClosing_of_reads (hclosing : closing.kind = .rightParen)
    (h : Reads (apply true allowance .query) words query (closing :: behind))
    (more : List TokenKind) :
    kindsBehindClosing 0 (words.map (·.kind) ++ more) = behind.map (·.kind) ++ more := by
  obtain ⟨front, rfl⟩ := h.suffix
  -- what the rule does in front of a part of the words, it does in front of all of them
  have carries {back : List Word} (closes : firstKind back = .rightParen) (front : List Word) :=
    (apply_carries closes allowance).carries .query front trivial
  have balanced : balance front = 0 := by
    have closes : firstKind [closing] = .rightParen := hclosing
    have counts := (carries closes (front ++ closing :: behind)).balance_of_reads h
    rw [balance_append] at counts
    omega
  have first (part : List Word) (word : Word) (rest : List Word)
      (split : front = part ++ word :: rest) (hkind : word.kind = .rightParen) :
      balance part ≠ (0 : Nat) := by
    intro closed
    have whole : front ++ closing :: behind = part ++ (word :: (rest ++ closing :: behind)) := by
      rw [split, List.append_assoc, List.cons_append]
    rw [whole] at h
    have closes : firstKind (word :: (rest ++ closing :: behind)) = .rightParen := hkind
    cases carries closes part with
    | reads meets _ _ carries =>
      obtain ⟨-, same⟩ := (carries (by omega)).reads.unique h
      have length := congrArg List.length same
      simp only [List.length_append, List.length_cons] at length
      omega
    | stalls _ carries => exact h.not_stalls (carries (by omega)).stalls
    | aborts _ carries => exact (carries (by omega)).aborts.not_reads h
  rw [List.map_append, List.map_cons, hclosing, List.append_assoc, List.cons_append]
  exact kindsBehindClosing_append _ balanced first

/-! ### What is read behind `IN` -/

/-- What starts with the word of a query can stand behind `IN`. -/
theorem opensMembership_of_startsQuery (word : startsQuery (firstKind words) = true)
    (more : List TokenKind) : opensMembership (words.map (·.kind) ++ more) = true := by
  cases words with
  | nil => cases word
  | cons first words =>
    rw [firstKind_cons] at word
    cases hkind : first.kind with
    | keyword keyword => simpa [opensMembership, hkind] using word
    | _ => rw [hkind] at word; cases word

/-- A query that starts with a word, or is nothing but a query in parentheses, is read behind `IN`. -/
theorem reads_inTail (operand : Expr) (negated : Bool) (hopening : opening.kind = .leftParen)
    (hclosing : closing.kind = .rightParen)
    (h : Reads (apply true allowance .query) words query (closing :: rest))
    (opens : opensMembership (words.map (·.kind) ++ [.eof]) = true) :
    ∃ m expr, Reads (inTail (apply true m) operand negated) (opening :: words) expr rest := by
  rcases (query_starts allowance words).of_reads h (.any words) with word | paren
  · refine ⟨allowance, .inQuery operand query negated, .expect_bind hopening ?_⟩
    refine (Reads.currentKind words).bind ?_
    rw [if_pos word]
    exact h.bind (.expect_bind hclosing (.pure _ rest))
  · obtain ⟨opening', inner, rfl, hopening'⟩ := exists_cons_of_firstKind (by nofun) paren
    obtain ⟨less, first, closing', behind, _, reads, hclosing', _, _, begins⟩ :=
      (query_begins allowance hopening').of_reads h (.any _)
    obtain ⟨m, expr, hexpr, -⟩ := reads_parenthesizedQuery hopening' hclosing' reads
      (ends_of_begins hclosing begins)
    -- a parenthesis follows the first operand at once, so the query does not go on
    have closed : firstKind behind = .rightParen := by
      rw [List.map_cons, List.cons_append, hopening', opensMembership,
        kindsBehindClosing_of_reads hclosing' reads] at opens
      cases behind with
      | nil => exact absurd opens (by decide)
      | cons word behind => simpa using opens
    rcases begins with ⟨-, -, rfl⟩ | ⟨-, -, goesOn⟩
    · have noQuery : ¬startsQuery (firstKind (opening' :: inner)) = true := by
        rw [firstKind_cons, hopening']
        decide
      refine ⟨m, .inList operand [expr] negated, .expect_bind hopening ?_⟩
      refine (Reads.currentKind _).bind ?_
      rw [if_neg noQuery]
      refine (reads_oneOrMore_singleton hexpr ?_).bind (.expect_bind hclosing (.pure _ rest))
      rw [closed]
      nofun
    · rw [closed] at goesOn
      exact absurd goesOn (by decide)

/-- No other query is read behind `IN`: a list of expressions is not closed behind its first
operand. -/
theorem inTail_never (operand : Expr) (negated : Bool) (hclosing : closing.kind = .rightParen)
    (h : Reads (apply true allowance .query) words query (closing :: rest))
    (opens : opensMembership (words.map (·.kind) ++ [.eof]) = false) (m : Nat) {good : Word → Prop} :
    Ensures (inTail (apply true m) operand negated) (opening :: words) (fun _ _ => False) good := by
  refine .expect_bind nofun fun _ inner split _ => ?_
  obtain ⟨rfl, rfl⟩ := List.cons.inj split
  refine .reads_bind (.currentKind words) ?_
  rcases (query_starts allowance words).of_reads h (.any words) with word | paren
  · rw [opensMembership_of_startsQuery word] at opens
    cases opens
  · obtain ⟨opening', inner, rfl, hopening'⟩ := exists_cons_of_firstKind (by nofun) paren
    obtain ⟨less, first, closing', behind, _, reads, hclosing', _, _, begins⟩ :=
      (query_begins allowance hopening').of_reads h (.any _)
    obtain ⟨depth, expr, hexpr, -⟩ := reads_parenthesizedQuery hopening' hclosing' reads
      (ends_of_begins hclosing begins)
    -- no parenthesis follows the first operand at once, so the query goes on
    have goesOn : firstKind behind ∈ afterOperand := by
      rcases begins with ⟨-, -, rfl⟩ | ⟨-, -, goesOn⟩
      · rw [List.map_cons, List.cons_append, hopening', opensMembership,
          kindsBehindClosing_of_reads hclosing' reads] at opens
        simp [hclosing] at opens
      · exact goesOn
    have noList : ∀ kind ∈ afterOperand, kind ≠ .comma ∧ kind ≠ .rightParen := by decide
    obtain ⟨noComma, noClosing⟩ := noList _ goesOn
    have noQuery : ¬startsQuery (firstKind (opening' :: inner)) = true := by
      rw [firstKind_cons, hopening']
      decide
    rw [if_neg noQuery]
    have list : Ensures (expressions (apply true m)) (opening' :: inner) (fun _ rest => rest = behind)
        good := by
      refine (hexpr.ensures_apply m).bind fun expr' rest' ⟨_, hrest⟩ => ?_
      subst hrest
      have done : Reads (listStep .comma (apply true m .expression) #[expr']) rest'
          (.done #[expr']) rest' := (Reads.eat_false noComma).bind (.pure _ _)
      exact .reads_bind ((Repeats.refl #[expr'] rest').iterate done) (.pure rfl)
    refine list.bind fun items rest' hrest => ?_
    subst hrest
    refine .expect_bind nofun fun word inner split hkind => ?_
    rw [split, firstKind_cons] at noClosing
    exact absurd hkind noClosing

end

/-! ### The condition -/

/-- The words of a test whether a query has rows, with words behind its parenthesis. -/
def existenceWords (words : List Word) : List Word :=
  Keyword.EXISTS.word :: TokenKind.leftParen.word :: words

/-- The words of a test whether a column is in a query, with words behind its parenthesis. -/
def membershipWords (column : Identifier) (negated : Bool) (words : List Word) : List Word :=
  column.word :: (wordIf .NOT negated ++ Keyword.IN.word :: TokenKind.leftParen.word :: words)

section

variable {words rest : List Word} {query : Query} {closing : Word} {allowance : Nat}
  {column : Identifier}

/-- Behind the words of a test whether a query has rows, a query is read. -/
theorem ensures_existence {good : Word → Prop} (allowance : Nat) (words : List Word) :
    Ensures (operand true (apply true allowance)) (existenceWords words) (fun _ rest =>
      ∃ m query closing, closing.kind = .rightParen ∧
        Reads (apply true m .query) words query (closing :: rest)) good := by
  have test : Ensures (apply true allowance .exists) (existenceWords words) (fun _ rest =>
      ∃ m query closing, closing.kind = .rightParen ∧
        Reads (apply true m .query) words query (closing :: rest)) good := by
    refine .apply fun n _ => .reads_bind (.expectWord .EXISTS _) (.map ?_)
    refine .expect_bind nofun fun _ inner split _ => ?_
    obtain ⟨rfl, rfl⟩ := List.cons.inj split
    refine (Ensures.reads .query n words).bind fun query middle reads => ?_
    refine .expect_bind nofun fun closing rest split hkind => .pure ?_
    exact ⟨n, query, closing, hkind, split ▸ reads n (Nat.le_refl n)⟩
  refine .reads_bind (.currentKind _) (.current_bind fun token hkind _ => ?_)
  have noLiteral : TokenKind.keyword .EXISTS ∉ literalKinds := by decide
  rw [Token.literal?_eq_none (hkind ▸ noLiteral), hkind]
  exact test

/-- A column is read in front of a membership test. -/
theorem reads_testedColumn (valid : column.Valid) (negated : Bool) (words : List Word) :
    Reads (operand true (apply true allowance)) (membershipWords column negated words)
      (.column ⟨[], column⟩)
      (wordIf .NOT negated ++ Keyword.IN.word :: TokenKind.leftParen.word :: words) := by
  have isValid : QualifiedName.Valid ⟨[], column⟩ := fun part mem => List.mem_singleton.mp mem ▸ valid
  exact reads_column isValid (by cases negated <;> nofun) (by cases negated <;> nofun)

/-- Behind `IN` or `NOT IN`, a run of operators goes on with what stands in the parenthesis. -/
theorem reads_membership {left expr : Expr} {negated : Bool}
    (h : Reads (inTail (apply true allowance) left negated) (TokenKind.leftParen.word :: words) expr
      rest) :
    Reads (operatorStep (apply true allowance) 0 left)
      (wordIf .NOT negated ++ Keyword.IN.word :: TokenKind.leftParen.word :: words) (.more expr)
      rest := by
  refine (Reads.precedence _).bind ((Reads.currentKind _).bind ((Reads.nextKind _).bind ?_))
  rw [if_pos (by cases negated <;> rfl), if_neg (Nat.not_lt_zero _)]
  have membership : Reads (negatableTail (apply true allowance) left 5 negated)
      (Keyword.IN.word :: TokenKind.leftParen.word :: words) expr rest :=
    (Reads.eat_false (firstKind_keyword_ne (by decide) _)).bind ((Reads.eat_true rfl).bind h)
  refine .map _ ?_
  rw [predicateTail_eq]
  cases negated with
  | false =>
    exact (Reads.eat_false (firstKind_keyword_ne (by decide) _)).bind
      ((Reads.eat_false (firstKind_keyword_ne (by decide) _)).bind membership)
  | true =>
    exact (Reads.eat_false (firstKind_keyword_ne (by decide) _)).bind
      ((Reads.eat_true rfl).bind membership)

/-- If nothing is read in the parenthesis behind `IN` or `NOT IN`, no run of operators goes on there. -/
theorem ensures_membership {left : Expr} {negated : Bool} {good : Word → Prop}
    (h : Ensures (inTail (apply true allowance) left negated) (TokenKind.leftParen.word :: words)
      (fun _ _ => False) good) :
    Ensures (operatorStep (apply true allowance) 0 left)
      (wordIf .NOT negated ++ Keyword.IN.word :: TokenKind.leftParen.word :: words)
      (fun _ _ => False) good := by
  refine .reads_bind (.precedence _) (.reads_bind (.currentKind _) (.reads_bind (.nextKind _) ?_))
  rw [if_pos (by cases negated <;> rfl), if_neg (Nat.not_lt_zero _)]
  have membership : Ensures (negatableTail (apply true allowance) left 5 negated)
      (Keyword.IN.word :: TokenKind.leftParen.word :: words) (fun _ _ => False) good :=
    .reads_bind (.eat_false (firstKind_keyword_ne (by decide) _)) (.reads_bind (.eat_true rfl) h)
  refine .map ?_
  rw [predicateTail_eq]
  cases negated with
  | false =>
    exact .reads_bind (.eat_false (firstKind_keyword_ne (by decide) _))
      (.reads_bind (.eat_false (firstKind_keyword_ne (by decide) _)) membership)
  | true =>
    exact .reads_bind (.eat_false (firstKind_keyword_ne (by decide) _))
      (.reads_bind (.eat_true rfl) membership)

/-- A test whether a query has rows can be exchanged for a membership test, if the query can stand
there. -/
theorem Exchanges.membership (valid : column.Valid) (negated : Bool)
    (opens : opensMembership (words.map (·.kind) ++ [.eof]) = true) :
    Exchanges .expression (existenceWords words) (membershipWords column negated words) := by
  refine .expression fun good allowance => (ensures_existence allowance words).mono ?_
  rintro _ rest ⟨n, query, closing, hclosing, reads⟩
  have hopening : TokenKind.leftParen.word.kind = .leftParen := rfl
  obtain ⟨m, expr, hexpr⟩ := reads_inTail (.column ⟨[], column⟩) negated hopening hclosing reads opens
  refine ⟨m, expr, .column ⟨[], column⟩, _, reads_testedColumn valid negated words, ?_⟩
  refine .cons (reads_membership hexpr) ?_ (.refl _ _)
  have suffix := reads.suffix.length_le
  simp only [List.length_cons, List.length_append] at suffix ⊢
  omega

/-- No other query stands in a membership test. -/
theorem membership_never (valid : column.Valid) (negated : Bool) (hclosing : closing.kind = .rightParen)
    (h : Reads (apply true allowance .query) words query (closing :: rest))
    (opens : opensMembership (words.map (·.kind) ++ [.eof]) = false) (m : Nat) {good : Word → Prop} :
    Ensures (apply true m .expression) (membershipWords column negated words) (fun _ _ => False)
      good := by
  refine .apply fun _ _ => .apply fun n _ => .reads_bind (reads_testedColumn valid negated words) ?_
  refine .reads_bind (.remaining _) (.bind (ensures_membership ?_) fun _ _ h => h.elim)
  exact inTail_never _ negated hclosing h opens n

end

/-! ### Statements -/

/-- The text of a statement that tests whether a query has rows. -/
def existenceText (query : String) : String :=
  "SELECT a FROM t WHERE EXISTS (" ++ query ++ ")"

/-- The text of a statement that tests whether a column is in a query. -/
def membershipText (negated : Bool) (query : String) : String :=
  (if negated then "SELECT a FROM t WHERE a NOT IN (" else "SELECT a FROM t WHERE a IN (") ++
    query ++ ")"

/-- The words of a statement with the condition. -/
def conditionWords (condition : List Word) : List Word :=
  Keyword.SELECT.word :: Identifier.word (.regular "a") :: Keyword.FROM.word ::
    Identifier.word (.regular "t") :: Keyword.WHERE.word :: condition

/-- The words of a statement can be written if those of its condition can. -/
theorem spelled_conditionWords {condition : List Word} (h : ∀ word ∈ condition, word.Spelled) :
    ∀ word ∈ conditionWords condition, word.Spelled := by
  have validA : (Identifier.regular "a").Valid := isName_letter "a" (by simp)
  have validT : (Identifier.regular "t").Valid := isName_letter "t" (by simp)
  simpa [conditionWords, Keyword.spelled_word, validA.spelled, validT.spelled] using h

section

variable {words rest : List Word} {query : String} {tree : Query} {settings : Settings}
  {allowance : Nat}

/-- Where the condition is no expression, no statement is read. -/
theorem not_reads_conditionWords
    (never : ∀ good allowance, Ensures (apply true allowance .expression) words (fun _ _ => False) good)
    (allowance : Nat) : ¬Reads (apply true allowance .query) (conditionWords words) tree rest := by
  intro reads
  -- anything can be exchanged for such a condition, even no words at all
  have exchanges : Exchanges .expression words [] := fun good allowance =>
    (never good allowance).mono fun _ _ h => h.elim
  have validA : (Identifier.regular "a").Valid := isName_letter "a" (by simp)
  have validT : (Identifier.regular "t").Valid := isName_letter "t" (by simp)
  obtain ⟨m, value, again⟩ :=
    (exchanges.statement validA validT (fun _ => True) allowance).of_reads reads (.any _)
  have fails : (match apply true 20 .query (Session.facing (conditionWords []) .adql) with
    | .ok _ _ => true
    | .error failure _ => failure.fatal) = false := by decide +kernel
  have faces := Session.faces_facing (conditionWords []) .adql
  rcases Reads.settled again 20 with reads | aborts
  · obtain ⟨_, hrun, _⟩ := reads _ _ faces
    rw [hrun] at fails
    cases fails
  · obtain ⟨_, _, hrun, fatal⟩ := aborts _ _ faces
    rw [hrun] at fails
    exact Bool.false_ne_true (fails.symm.trans fatal)

/-- Behind `EXISTS` in a statement, a query is read. -/
theorem exists_reads_of_existence
    (h : Reads (apply true allowance .query) (conditionWords (existenceWords words)) tree rest) :
    ∃ n body closing behind, closing.kind = .rightParen ∧
      Reads (apply true n .query) words body (closing :: behind) := by
  by_contra none
  refine not_reads_conditionWords (fun good allowance => ?_) allowance h
  refine .apply fun _ _ => .apply fun n _ => (ensures_existence n words).bind ?_
  rintro _ behind ⟨m, body, closing, hclosing, hbody⟩
  exact absurd ⟨m, body, closing, behind, hclosing, hbody⟩ none

/-- A query and the parenthesis behind it are cut into the same words behind `EXISTS` and behind
`IN`. -/
theorem exists_words_of_existence {tokens : List Token}
    (cut : tokenize (existenceText query) = .ok tokens) :
    ∃ words, Cuts (query ++ ")").toList words ∧
      tokens.map Token.word = conditionWords (existenceWords words) ++ [endWord] ∧
      ∀ negated, ∃ all, tokenize (membershipText negated query) = .ok all ∧
        all.map Token.word =
          conditionWords (membershipWords (.regular "a") negated words) ++ [endWord] := by
  have spelled : ∀ word ∈ conditionWords [Keyword.EXISTS.word], word.Spelled :=
    spelled_conditionWords (List.forall_mem_singleton.mpr (Keyword.spelled_word _))
  have opens : "SELECT a FROM t WHERE EXISTS (".toList =
      ((conditionWords [Keyword.EXISTS.word]).flatMap fun word => word.lexeme.toList ++ [' ']) ++
        ['('] := by decide +kernel
  have text : existenceText query = "SELECT a FROM t WHERE EXISTS (" ++ (query ++ ")") :=
    String.append_assoc
  rw [text] at cut
  obtain ⟨words, inner⟩ := exists_cuts_of_opened opens spelled cut
  obtain ⟨tokens', cut', written⟩ := tokenize_opened opens spelled inner
  obtain rfl : tokens = tokens' := Except.ok.inj (cut.symm.trans cut')
  refine ⟨words, inner, by simpa [conditionWords, existenceWords] using written, fun negated => ?_⟩
  let front := if negated then "SELECT a FROM t WHERE a NOT IN (" else "SELECT a FROM t WHERE a IN ("
  have text : membershipText negated query = front ++ (query ++ ")") := String.append_assoc
  rw [text]
  have validA : (Identifier.regular "a").Valid := isName_letter "a" (by simp)
  have spelled : ∀ word ∈ conditionWords (Identifier.word (.regular "a") ::
      (wordIf .NOT negated ++ [Keyword.IN.word])), word.Spelled := by
    refine spelled_conditionWords (List.forall_mem_cons.mpr ⟨validA.spelled, ?_⟩)
    exact List.forall_mem_append.mpr ⟨spelled_wordIf _ _,
      List.forall_mem_singleton.mpr (Keyword.spelled_word _)⟩
  have opens : front.toList = ((conditionWords (Identifier.word (.regular "a") ::
      (wordIf .NOT negated ++ [Keyword.IN.word]))).flatMap fun word => word.lexeme.toList ++ [' ']) ++
        ['('] := by cases negated <;> decide +kernel
  obtain ⟨all, cut, written⟩ := tokenize_opened opens spelled inner
  refine ⟨all, cut, written.trans ?_⟩
  simp [conditionWords, membershipWords]

/-- The kinds of the tokens are those of the words. -/
theorem canBeMembership_eq (cut : Cuts (query ++ ")").toList words) :
    canBeMembership query = opensMembership (words.map (·.kind) ++ [.eof]) := by
  obtain ⟨tokens, cut, written⟩ := cut .origin
  have kinds := congrArg (List.map (·.kind)) written
  rw [canBeMembership, tokenize, Lexer.ofText, cut]
  simpa [Token.word, Function.comp_def, endWord] using congrArg opensMembership kinds

/-- A text that can stand behind `EXISTS` can stand behind `IN` and `NOT IN` as well if it starts with
`SELECT` or `WITH`, or with a parenthesis that is closed right in front of another closing parenthesis.
Otherwise it is never parsed there without diagnostics. -/
theorem parses_membership (precedence : settings.precedence = .adql)
    (unbounded : settings.ruleBudget = none)
    (clean : parseText (existenceText query) settings = ⟨some tree, []⟩) (negated : Bool) :
    if canBeMembership query then ∃ tree', ParsesTo (membershipText negated query) tree'
    else ∀ settings' : Settings, settings'.precedence = .adql → settings'.ruleBudget = none →
      (parseText (membershipText negated query) settings').errors ≠ [] := by
  have validA : (Identifier.regular "a").Valid := isName_letter "a" (by simp)
  have validT : (Identifier.regular "t").Valid := isName_letter "t" (by simp)
  obtain ⟨tokens, all, rest, cut, written, -, reads, ends⟩ := reads_of_parse precedence unbounded clean
  obtain ⟨words, inner, written', memberships⟩ := exists_words_of_existence cut
  obtain rfl : all = conditionWords (existenceWords words) :=
    List.append_cancel_right (written.symm.trans written')
  obtain ⟨tokens', cut', written'⟩ := memberships negated
  rw [canBeMembership_eq inner]
  split
  · next opens =>
    obtain ⟨depth, tree', again⟩ := ((Exchanges.membership validA negated opens).statement validA validT
      (fun _ => True) _).of_reads reads (.any _)
    exact ⟨tree', .of_reads cut' written' again ends⟩
  · next closed =>
    intro settings' precedence' unbounded' clean'
    obtain ⟨n, body, closing, behind, hclosing, hbody⟩ := exists_reads_of_existence reads
    have never (good : Word → Prop) (m : Nat) : Ensures (apply true m .expression)
        (membershipWords (.regular "a") negated words) (fun _ _ => False) good :=
      membership_never validA negated hclosing hbody (Bool.eq_false_iff.mpr closed) m
    obtain ⟨tree', parsed⟩ := exists_tree_of_errors clean'
    obtain ⟨tokens'', all, rest', cut'', written'', -, reads', -⟩ :=
      reads_of_parse precedence' unbounded' parsed
    obtain rfl : tokens'' = tokens' := Except.ok.inj (cut''.symm.trans cut')
    obtain rfl : all = conditionWords (membershipWords (.regular "a") negated words) :=
      List.append_cancel_right (written''.symm.trans written')
    exact not_reads_conditionWords never _ reads'

end

/-- A query in parentheses, with a set operation inside. -/
def unionInParentheses : String :=
  "((SELECT b FROM s) UNION SELECT c FROM r)"

/-- A query in parentheses can stand behind `EXISTS`, and behind `NOT IN`. -/
theorem parses_membership_parentheses :
    (∃ tree, parseText (existenceText unionInParentheses) {} = ⟨some tree, []⟩) ∧
      canBeMembership unionInParentheses = true ∧
      ∃ tree, ParsesTo (membershipText true unionInParentheses) tree := by
  have errors : (parseText (existenceText unionInParentheses) {}).errors = [] := by decide +kernel
  obtain ⟨tree, clean⟩ := exists_tree_of_errors errors
  have opens : canBeMembership unionInParentheses = true := by decide +kernel
  have stands := parses_membership rfl rfl clean true
  rw [if_pos opens] at stands
  exact ⟨⟨tree, clean⟩, opens, stands⟩

/-- A query that starts with a parenthesis and goes on behind it. -/
def unionBehindParentheses : String :=
  "(SELECT a FROM t) UNION SELECT a FROM t"

/-- A set operation that starts with a parenthesis stands behind `EXISTS`, but not behind `IN`. -/
theorem union_is_no_membership : ∃ tree, parseText (existenceText unionBehindParentheses) {} =
      ⟨some tree, []⟩ ∧
    (parseText (membershipText false unionBehindParentheses) {}).errors ≠ [] := by
  have errors : (parseText (existenceText unionBehindParentheses) {}).errors = [] := by decide +kernel
  have refused : (parseText (membershipText false unionBehindParentheses) {}).errors ≠ [] := by
    decide +kernel
  obtain ⟨tree, clean⟩ := exists_tree_of_errors errors
  exact ⟨tree, clean, refused⟩

end Adql
