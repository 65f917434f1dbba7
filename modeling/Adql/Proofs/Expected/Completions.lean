import Adql.Proofs.Composition.Statements
import Adql.Proofs.Expected.AllRules
import Adql.Proofs.Expected.Candor
import Adql.Proofs.Furthest.Exactness
import Adql.Proofs.Grammar.Order

/-!
# Completions

Every kind that a diagnostic expects helps: if there is no recovery, the tokens in front of the
unexpected one go on with a token of that kind, and get to the end of a statement without a
diagnostic.

A kind that was noted about a position was offered there by the rule for queries
(`helpful_apply_query`), so it can be continued (`GoesOn`); and the two kinds that are looked for
behind the query, a semicolon and the end, can be continued where the query ends.  `Session.Prompts`
says so of all notes of a session.  A diagnostic lists the notes about its position.
-/

namespace Adql

open Adql.Parser Adql.Grammar

/-- Behind the words, written words that start with the kind get to the end of a statement; no such
words start with the end marker. -/
def GoesOn (front : List Word) (kind : TokenKind) : Prop :=
  ∃ words depth tree rest, firstKind words = kind ∧ (∀ word ∈ words, word.Spelled) ∧
    Reads (apply true depth .query) (front ++ words) tree rest ∧ Session.EndsStatement rest

/-- What a query offers continues it. -/
theorem Offers.goesOn {depth : Nat} {front : List Word} {kind : TokenKind}
    (h : Offers queryEnds (apply true depth .query) front kind) : GoesOn front kind := by
  obtain ⟨word, more, tree, same, spelled, reads⟩ := h
  have ends : firstKind [] ∈ queryEnds := List.mem_cons_of_mem _ List.mem_cons_self
  have reads := reads [] ends
  rw [List.append_nil] at reads
  exact ⟨word :: more, depth, tree, [], same, spelled, reads, .inl rfl⟩

/-- What is read to the end of a statement goes on with the end. -/
theorem GoesOn.of_reads {depth : Nat} {front rest : List Word} {tree : Query}
    (reads : Reads (apply true depth .query) front tree rest) (ends : Session.EndsStatement rest) :
    GoesOn front .eof := by
  refine ⟨[], depth, tree, rest, rfl, List.forall_mem_nil _, ?_, ends⟩
  rwa [List.append_nil]

/-- Whatever the session has noted is about a place in the words where it continues them. -/
def Session.Prompts (session : Session) (words : List Word) : Prop :=
  ∀ position kind, kind ∈ session.notedAt position →
    position ≤ words.length ∧ GoesOn (words.take position) kind

/-- A kind may be noted where it continues the words. -/
theorem Session.Prompts.noting {session : Session} {words : List Word} {kind : TokenKind}
    (h : session.Prompts words) (inside : session.cursor.position ≤ words.length)
    (goesOn : GoesOn (words.take session.cursor.position) kind) :
    (session.noting kind).Prompts words := by
  intro position other noted
  rcases Session.mem_notedAt_noting noted with before | ⟨rfl, rfl⟩
  · exact h position other before
  · exact ⟨inside, goesOn⟩

/-- The diagnostic is about the token at a place in the words, and expects only kinds that the words in
front of it go on with. -/
def Diagnostic.Prompts (error : Diagnostic) (tokenAt : Nat → Token) (words : List Word) : Prop :=
  ∃ position expected rules, position ≤ words.length ∧
    error = .unexpected (tokenAt position) expected rules ∧
    ∀ kind ∈ expected, GoesOn (words.take position) kind

/-- A diagnostic that prompts is not about a limit. -/
theorem Diagnostic.Prompts.isLimit {error : Diagnostic} {tokenAt : Nat → Token} {words : List Word}
    (h : error.Prompts tokenAt words) : error.isLimit = false := by
  obtain ⟨_, _, _, _, rfl, _⟩ := h
  rfl

section

variable {session after : Session} {words : List Word} {tree : Query}

/-! ### The query -/

section

variable (faces : session.Faces words .adql fun _ => True)
  (start : session.cursor.position = 0)

include faces start

/-- There are as many tokens as words. -/
theorem size_eq_length : session.cursor.tokens.size = words.length := by
  have remaining := faces.remaining
  rwa [TokenCursor.remaining, start, Nat.sub_zero] at remaining

/-- In front of all words, a session stands in front of the first of them. -/
theorem splits_take {position : Nat} (inside : position ≤ words.length) :
    session.Splits (words.take position) (words.drop position) position :=
  ⟨(List.take_append_drop position words).symm ▸ faces, by
    rw [start, Nat.zero_add, List.length_take, Nat.min_eq_left inside]⟩

/-- Behind a query, the session recalls its notes, all of which are about places in the words. -/
theorem exists_recalls (fresh : session.furthest = none) :
    ∃ notes, (sessionAfter (applyRule .query session)).Recalls notes ∧
      (sessionAfter (applyRule .query session)).cursor.tokens.size = words.length := by
  obtain ⟨moments, through⟩ := applyRule_traced .query session
  have inside : session.cursor.Inside := ⟨congrArg Word.kind faces.final, start ▸ Nat.zero_le _⟩
  have recalls : session.Recalls [] :=
    ⟨fun _ => rfl, fun _ some => (by cases fresh.symm.trans some), nofun, inside⟩
  have recounts : Recounts session [] moments _ := through.recounts recalls
  exact ⟨_, recounts.recalls, recounts.tokens ▸ size_eq_length faces start⟩

/-- All notes of a query are about places in the words. -/
theorem position_le_of_noted (fresh : session.furthest = none) {position : Nat} {kind : TokenKind}
    (noted : kind ∈ (sessionAfter (applyRule .query session)).notedAt position) :
    position ≤ words.length := by
  obtain ⟨notes, recalls, size⟩ := exists_recalls faces start fresh
  obtain ⟨furthest, found, rfl, -⟩ := Session.exists_of_mem_notedAt noted
  obtain ⟨⟨note, listed, here⟩, -⟩ := (recalls.records furthest found).greatest
  exact here ▸ size ▸ recalls.bounded note listed

variable (deep : 16 + 8 * (words.length + 1) < session.settings.maxDepth)

include deep

omit faces start in
/-- In front of some of the words, the query is honest. -/
theorem honest_take (position : Nat) : ∃ outcome, Honest queryEnds
    (apply true session.settings.maxDepth .query) (words.take position) outcome := by
  refine (helpful_apply_query (words.length + 1) _ deep).honest _ ?_
  exact Nat.lt_succ_of_le (List.length_take_le' _ _)

/-- Whatever a query notes, the words in front of it go on with. -/
theorem prompts_query (fresh : session.furthest = none) :
    (sessionAfter (applyRule .query session)).Prompts words := by
  intro position kind noted
  have inside := position_le_of_noted faces start fresh noted
  refine ⟨inside, ?_⟩
  obtain ⟨outcome, honest⟩ := honest_take deep position
  have gets := honest.gets session _ position (splits_take faces start inside)
  rcases gets.noted kind noted with before | offers | ⟨never, -⟩
  · rw [Session.notedAt_of_none fresh] at before
    exact absurd before (KindSet.not_mem_empty kind)
  · exact Offers.goesOn offers
  · exact absurd never (Set.notMem_empty kind)

/-- What a query reads, it reads in front of any words that it does not leave. -/
theorem exists_honest_rest (run : applyRule .query session = .ok tree after) {position : Nat}
    (reached : after.cursor.position ≤ position) (inside : position ≤ words.length) :
    ∃ rest, Honest queryEnds (apply true session.settings.maxDepth .query) (words.take position)
      (some (tree, rest)) ∧ after.Splits rest (words.drop position) position := by
  obtain ⟨outcome, honest⟩ := honest_take deep position
  have gets := honest.gets session _ position (splits_take faces start inside)
  rcases gets.passed tree after run with passed | ⟨rest, rfl, splits⟩
  · exact absurd reached (Nat.not_le_of_lt passed)
  · exact ⟨rest, honest, splits⟩

/-! ### The end of the statement -/

/-- Behind a query, the words that it read go on with a semicolon, and with the end. -/
theorem goesOn_behind (run : applyRule .query session = .ok tree after)
    (inside : after.cursor.position ≤ words.length) {kind : TokenKind}
    (listed : kind ∈ [TokenKind.semicolon, .eof]) :
    GoesOn (words.take after.cursor.position) kind := by
  obtain ⟨rest, honest, splits⟩ := exists_honest_rest faces start deep run (Nat.le_refl _) inside
  obtain rfl : rest = [] := List.length_eq_zero_iff.mp (Nat.add_left_cancel splits.ends)
  rw [List.mem_pair] at listed
  rcases listed with rfl | rfl
  · -- a query that offers a semicolon would go on with it; otherwise it is left
    rcases honest.steady .semicolon with offers | steady
    · exact Offers.goesOn offers
    · exact ⟨[TokenKind.semicolon.word], _, tree, _, rfl, List.forall_mem_singleton.mpr rfl,
        steady [TokenKind.semicolon.word] rfl, .inr ⟨_, rfl, rfl⟩⟩
  · exact .of_reads honest.reads (.inl rfl)

/-- Behind a query and a semicolon, the words go on with the end. -/
theorem goesOn_behind_semicolon (run : applyRule .query session = .ok tree after)
    (inside : after.cursor.position ≤ words.length) (there : after.current.kind = .semicolon) :
    after.cursor.advance.position ≤ words.length ∧
      GoesOn (words.take after.cursor.advance.position) .eof := by
  obtain ⟨left, -, whole⟩ := exists_honest_rest faces start deep run inside (Nat.le_refl _)
  have first : firstKind left = .semicolon := by
    rw [← there, whole.faces.current_kind, List.drop_length, List.append_nil]
  have noEnd : TokenKind.semicolon ≠ .eof := nofun
  obtain ⟨_, _, rfl, -⟩ := exists_cons_of_firstKind noEnd first
  have moved := Session.Splits.position_advance whole.faces
  have ends := whole.ends
  rw [List.length_cons] at ends
  have inside' : after.cursor.advance.position ≤ words.length := by omega
  refine ⟨inside', ?_⟩
  obtain ⟨rest, honest, splits⟩ := exists_honest_rest faces start deep run (by omega) inside'
  have one : rest.length = 1 := by
    have ends := splits.ends
    omega
  obtain ⟨word, rfl⟩ := List.length_eq_one_iff.mp one
  have semicolon : word.kind = .semicolon := splits.faces.current_kind.symm.trans there
  exact .of_reads honest.reads (.inr ⟨word, rfl, semicolon⟩)

/-- Whatever was looked for at the end of the statement, the words in front of it go on with. -/
theorem prompts_end (fresh : session.furthest = none)
    (run : applyRule .query session = .ok tree after) :
    ((sessionAfter (eat .semicolon after)).noting .eof).Prompts words := by
  have prompts : after.Prompts words := by
    have prompts := prompts_query faces start deep fresh
    rwa [run] at prompts
  have inside : after.cursor.position ≤ words.length := by
    obtain ⟨_, recalls, size⟩ := exists_recalls faces start fresh
    rw [run] at recalls size
    exact size ▸ recalls.inside.position
  rw [eat_run]
  by_cases there : after.current.kind = .semicolon
  · rw [if_pos there]
    obtain ⟨inside', goesOn⟩ := goesOn_behind_semicolon faces start deep run inside there
    exact Session.Prompts.noting (fun position kind noted => prompts position kind noted) inside' goesOn
  · rw [if_neg there]
    have goesOn : ∀ kind ∈ [TokenKind.semicolon, .eof], GoesOn (words.take after.cursor.position) kind :=
      fun _ => goesOn_behind faces start deep run inside
    have noted : (after.noting .semicolon).Prompts words :=
      prompts.noting inside (goesOn _ (by decide))
    refine noted.noting ?_ ?_
    · rwa [Session.cursor_noting]
    · rw [Session.cursor_noting]
      exact goesOn _ (by decide)

omit faces start deep in
/-- Eating a semicolon reports nothing. -/
theorem errors_eat (kind : TokenKind) (session : Session) :
    (sessionAfter (eat kind session)).errors = session.errors := by
  rw [eat_run]
  split
  · rfl
  · exact session.errors_noting kind

omit deep in
/-- What is reported where all notes prompt, prompts. -/
theorem prompts_diagnosis {failure : Failure} (follows : session.Follows after)
    (prompts : after.Prompts words) (noted : failure.Noted after) :
    (after.diagnosis failure).Prompts session.cursor.tokenAt words := by
  have same : after.diagnosis failure = .unexpected (session.cursor.tokenAt failure.position)
      failure.expected failure.rules.reverse := by
    rw [Session.diagnosis, follows.tokenAt]
  rcases Nat.lt_or_ge words.length failure.position with beyond | inside
  · -- behind the words there is only the end marker, and nothing is noted there
    have size := size_eq_length faces start
    have final {position : Nat} (behind : words.length ≤ position) :
        session.cursor.tokenAt position = session.cursor.final := by
      rw [TokenCursor.tokenAt, Array.getElem?_eq_none (size ▸ behind), Option.getD_none]
    refine ⟨words.length, failure.expected, failure.rules.reverse, Nat.le_refl _, ?_,
      fun kind found => ?_⟩
    · rw [same, final (Nat.le_of_lt beyond), final (Nat.le_refl _)]
    · exact absurd (prompts _ kind (noted kind found)).1 (Nat.not_le_of_lt beyond)
  · exact ⟨failure.position, _, _, inside, same, fun kind found =>
      (prompts _ kind (noted kind found)).2⟩

/-- A strict parse reports at most one diagnostic, and it prompts. -/
theorem errors_parse_prompt (fresh : session.furthest = none) (short : session.settings.maxTokens = none) :
    session.parse.errors = [] ∨ ∃ error, session.parse.errors = [error] ∧
      error.Prompts session.cursor.tokenAt words := by
  have unlimited := Session.tokenLimit?_eq_none short
  have follows := (applyRule_moves .query session).follows
  have faces' : session.Faces (words ++ []) .adql fun _ => True := (List.append_nil words).symm ▸ faces
  obtain ⟨outcome, honest⟩ := honest_take deep words.length
  rw [List.take_length] at honest
  have does := honest.does
  match outcome with
  | none =>
    obtain ⟨failure, after, rest, run, mild, faced⟩ := does _ session faces'
    change applyRule .query session = _ at run
    have prompts := prompts_query faces start deep fresh
    rw [run] at prompts follows
    have noted : failure.Noted after := apply_candid _ .query session failure after run mild
    refine .inr ⟨after.diagnosis failure, ?_, prompts_diagnosis faces start follows prompts noted⟩
    rw [Session.parse_of_error unlimited run, mild, if_neg Bool.false_ne_true]
    rw [Session.errors_reporting, faced.clean]
    rfl
  | some (tree, rest) =>
    obtain ⟨after, run, faced⟩ := does _ session faces'
    change applyRule .query session = _ at run
    have prompts := prompts_end faces start deep fresh run
    rw [run] at follows
    have eaten : after.Follows (sessionAfter (eat .semicolon after)) :=
      ((moving.rel_eat .semicolon).1 after).follows
    have clean : (sessionAfter (eat .semicolon after)).errors = #[] := (errors_eat _ after).trans faced.clean
    rw [Session.parse_of_ok unlimited run, faced.running, if_neg Bool.false_ne_true]
    unfold Session.finished
    dsimp only
    split
    · exact .inl (clean ▸ rfl)
    · have follows := (follows.trans eaten).trans (.noting _ .eof)
      refine .inr ⟨_, ?_, prompts_diagnosis faces start follows prompts (Session.failure_noted _)⟩
      rw [Session.errors_reporting, Session.errors_noting, clean]
      rfl

end

end

/-! ### Texts -/

/-- Behind other tokens, these ones start with the kind and complete a statement: they are written words
with an end marker behind them, and with them the tokens are parsed without diagnostics. -/
structure Completes (completion front : List Token) (kind : TokenKind) : Prop where
  /-- The first token is of the kind. -/
  starts : completion.head?.map (·.kind) = some kind
  /-- The tokens are written, and the end marker stands behind them. -/
  written : ∃ words, completion.map Token.word = words ++ [endWord] ∧ ∀ word ∈ words, word.Spelled
  /-- With the others in front of them, the tokens are parsed without diagnostics. -/
  parsed : ∃ tree, TokensParseTo (front ++ completion) tree

/-- Where words go on with a kind, their tokens can be completed. -/
theorem GoesOn.exists_completion {tokens : List Token} {words : List Word} {position : Nat}
    {kind : TokenKind} (h : GoesOn (words.take position) kind)
    (written : tokens.map Token.word = words ++ [endWord]) (inside : position ≤ words.length) :
    ∃ completion, Completes completion (tokens.take position) kind := by
  obtain ⟨more, depth, tree, rest, first, spelled, reads, ends⟩ := h
  have same : ((more ++ [endWord]).map Word.token).map Token.word = more ++ [endWord] := by
    rw [List.map_map]
    exact List.map_id _
  refine ⟨(more ++ [endWord]).map Word.token, ?_, ⟨more, same, spelled⟩, tree, ?_⟩
  · rw [← first]
    cases more with
    | nil => rfl
    | cons word more => rfl
  · refine .of_reads ?_ reads ends
    rw [List.map_append, List.map_take, written, same, List.take_append_of_le_length inside]
    exact (List.append_assoc _ _ _).symm

/-- A diagnostic about an unexpected token tells the token and the expected kinds. -/
theorem Diagnostic.unexpected_inj {token token' : Token} {expected expected' : KindSet}
    {rules rules' : List RuleName}
    (same : Diagnostic.unexpected token expected rules = .unexpected token' expected' rules') :
    token = token' ∧ expected = expected' := by
  cases token
  cases token'
  cases same
  exact ⟨rfl, rfl⟩

/-- What is reported about tokens without recovery prompts, if it is not about a limit. -/
theorem prompts_of_reported {tokens : List Token} {words : List Word} {settings : Settings}
    (written : tokens.map Token.word = words ++ [endWord]) (precedence : settings.precedence = .adql)
    (strict : settings.recover = false) {error : Diagnostic}
    (reported : error ∈ (parseTokens tokens settings).errors) (noLimit : error.isLimit = false) :
    error.Prompts (TokenCursor.ofTokens tokens).tokenAt words := by
  -- the same is reported where rules may nest deep enough and nothing is limited
  let deep : Settings := { settings with
    maxErrors := 2, maxTokens := none, ruleBudget := none, maxDepth := 17 + 8 * (words.length + 1) }
  have faces : (Session.ofTokens tokens deep).Faces words .adql fun _ => True :=
    precedence ▸ Session.faces_ofTokens written (fun _ _ => trivial) strict rfl
  have start : (Session.ofTokens tokens deep).cursor.position = 0 := TokenCursor.position_ofTokens tokens
  have enough : 16 + 8 * (words.length + 1) < 17 + 8 * (words.length + 1) := by omega
  have whole := errors_parse_prompt faces start enough rfl rfl
  have prompts : ∀ error ∈ (parseTokens tokens deep).errors,
      error.Prompts (TokenCursor.ofTokens tokens).tokenAt words := by
    rcases whole with none | ⟨only, one, prompts⟩
    · exact fun error found => absurd (none ▸ found) List.not_mem_nil
    · exact fun error found => List.mem_singleton.mp (one ▸ found) ▸ prompts
  have few : (parseTokens tokens deep).errors.length < 2 := by
    rcases whole with none | ⟨only, one, -⟩
    · exact Nat.lt_of_le_of_lt (Nat.le_of_eq (congrArg List.length none)) Nat.two_pos
    · exact Nat.lt_of_le_of_lt (Nat.le_of_eq (congrArg List.length one)) Nat.one_lt_two
  have comparable : (Session.ofTokens tokens settings).Comparable deep := ⟨rfl, rfl, rfl⟩
  have cutOff := comparable.cutOff_parse (fun error found => (prompts error found).isLimit) few
  obtain ⟨common, before, same | ⟨limit, isLimit, same⟩⟩ := cutOff.errors
  · exact prompts error (before.subset (same ▸ reported))
  · rcases List.mem_append.mp (same ▸ reported) with found | last
    · exact prompts error (before.subset found)
    · rw [List.mem_singleton.mp last, isLimit] at noLimit
      cases noLimit

/-- The cursor finds the tokens at their places. -/
theorem getElem?_eq_tokenAt {tokens : List Token} {words : List Word}
    (written : tokens.map Token.word = words ++ [endWord]) {position : Nat}
    (inside : position ≤ words.length) :
    tokens[position]? = some ((TokenCursor.ofTokens tokens).tokenAt position) := by
  obtain ⟨before, last, rfl, rfl, ends⟩ := List.map_eq_append_iff.mp written
  obtain ⟨final, rfl, marked⟩ := List.map_eq_singleton_iff.mp ends
  have isEnd : final.isEnd = true := decide_eq_true (congrArg Word.kind marked)
  have cursor : TokenCursor.ofTokens (before ++ [final]) = ⟨before.toArray, final, 0⟩ := by
    simp [TokenCursor.ofTokens, isEnd]
  rw [List.length_map] at inside
  rw [cursor, TokenCursor.tokenAt]
  rcases Nat.eq_or_lt_of_le inside with rfl | less
  · simp
  · simp [List.getElem?_append_left less, less]

/-- Every kind that is expected helps.  Whatever the text is, let it be parsed without recovery and by the
precedence of the language, and let an unexpected token be reported.  It is one token of the text, and
for each of the expected kinds there are tokens that start with that kind and complete the statement
that the tokens in front of the unexpected one begin. -/
theorem exists_completion_of_expected (text : String) (settings : Settings)
    (precedence : settings.precedence = .adql) (strict : settings.recover = false) (token : Token)
    (expected : KindSet) (rules : List RuleName)
    (reported : .unexpected token expected rules ∈ (parseText text settings).errors) :
    ∃ tokens position, tokenize text = .ok tokens ∧
      (∀ index, tokens[index]? = some token ↔ index = position) ∧
      ∀ kind ∈ expected, ∃ completion, Completes completion (tokens.take position) kind := by
  cases cut : tokenize text with
  | error error =>
    have broken : (parseText text settings).errors = [.lexical error] := by
      simp only [parseText, parseText?, cut]
      rfl
    rw [broken, List.mem_singleton] at reported
    cases reported
  | ok tokens =>
    obtain ⟨words, written, -⟩ := exists_words_of_tokenize cut
    rw [parseText_of_tokenize cut] at reported
    obtain ⟨position, expected', rules', inside, same, goesOn⟩ :=
      prompts_of_reported written precedence strict reported rfl
    obtain ⟨rfl, rfl⟩ := Diagnostic.unexpected_inj same
    have here := getElem?_eq_tokenAt written inside
    have read : (Lexer.ofText text).HasRead [] text := ⟨rfl, rfl⟩
    refine ⟨tokens, position, rfl, fun index => ⟨fun there => ?_, fun same => same ▸ here⟩,
      fun kind found => (goesOn kind found).exists_completion written inside⟩
    obtain ⟨bound, -⟩ := List.getElem?_eq_some_iff.mp there
    exact (List.getElem?_inj bound (read.nodup cut)).mp (there.trans here.symm)

/-- A text with a name where the rest of a join was expected. -/
def unfinishedJoinSource : String :=
  "SELECT a FROM t NATURAL x"

/-- Behind `NATURAL`, any word that goes on with a join completes the statement. -/
theorem exists_completion_of_expected_join : ∃ tokens position,
    tokenize unfinishedJoinSource = .ok tokens ∧
      (∀ index, tokens[index]? = some ⟨.identifier, "x", ⟨24, 25⟩, 0, 24⟩ ↔ index = position) ∧
      ∀ keyword ∈ [Keyword.JOIN, .INNER, .LEFT, .RIGHT, .FULL],
        ∃ completion, Completes completion (tokens.take position) (.keyword keyword) := by
  have reported : .unexpected ⟨.identifier, "x", ⟨24, 25⟩, 0, 24⟩
      ([Keyword.JOIN, .INNER, .LEFT, .RIGHT, .FULL].foldl
        (fun kinds keyword => kinds.insert (.keyword keyword)) .empty)
      [.query, .queryBody, .queryTerm, .querySpec, .tableReference] ∈
      (parseText unfinishedJoinSource { recover := false }).errors := by decide +kernel
  obtain ⟨tokens, position, cut, here, helps⟩ :=
    exists_completion_of_expected unfinishedJoinSource { recover := false } rfl rfl _ _ _ reported
  refine ⟨tokens, position, cut, here, fun keyword listed => helps _ ?_⟩
  revert keyword
  decide

end Adql
