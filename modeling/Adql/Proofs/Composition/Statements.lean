import Adql.Proofs.Composition.Places
import Adql.Proofs.RoundTrip.Reparsing
import Adql.Proofs.Tokens.Joining
import Adql.Tree.Equality

/-!
# Queries within queries

A source that is parsed without diagnostics may be put in parentheses wherever the grammar asks for a
query, and it is read as the same query there (`composes_of_clean`).  Without diagnostics, the rule for
queries has read the words of the source to the end (`reads_of_clean`), whatever the settings were.
In the longer text the same words stand in parentheses, and the rule reads them up to the closing one
in every place.  What is read so is what any parse of the longer text yields, unless a limit ends it
(`ParsesTo`).
-/

namespace Adql

open Adql.Parser Adql.Grammar

/-! ### Tokens that are parsed as a query -/

/-- The tokens are parsed without diagnostics as the query, whatever the settings are besides the
precedence table. -/
structure TokensParseTo (tokens : List Token) (query : Query) : Prop where
  /-- Where rules may nest deep enough, and neither rules nor tokens are limited in number, the tokens
  are parsed so. -/
  deep : ∃ depth, ∀ settings : Settings, settings.precedence = .adql → settings.ruleBudget = none →
    settings.maxTokens = none → depth ≤ settings.maxDepth →
      parseTokens tokens settings = ⟨some query, []⟩
  /-- Otherwise they are parsed so as well, unless a limit is reported. -/
  limited : ∀ settings : Settings, settings.precedence = .adql →
    parseTokens tokens settings = ⟨some query, []⟩ ∨
      ∃ error ∈ (parseTokens tokens settings).errors, error.isLimit = true

section

variable {tokens : List Token} {words rest : List Word} {tree : Query} {settings : Settings}
  {depth : Nat}

/-- What strict parses read from the words of tokens up to the end of the statement, the tokens are
parsed as, where rules may nest that deep and nothing else is limited. -/
theorem parseTokens_of_reads (written : tokens.map Token.word = words ++ [endWord])
    (reads : Reads (apply true depth .query) words tree rest)
    (ends : Session.EndsStatement rest) (precedence : settings.precedence = .adql)
    (unbounded : settings.ruleBudget = none) (short : settings.maxTokens = none)
    (enough : depth ≤ settings.maxDepth) : parseTokens tokens settings = ⟨some tree, []⟩ := by
  refine (Session.parse_strict_clean_iff (Session.ends_ofTokens tokens settings) rfl).mp ?_
  have faces : (Session.ofTokens tokens settings).strict.Faces words settings.precedence
      fun _ => True := Session.faces_ofTokens written (fun _ _ => trivial) rfl unbounded
  rw [precedence] at faces
  exact faces.clean_of_reads short (reads.of_le enough) ends

/-- What strict parses read from the words of tokens up to the end of the statement, the tokens are
parsed as, or a limit is reported. -/
theorem TokensParseTo.of_reads (written : tokens.map Token.word = words ++ [endWord])
    (reads : Reads (apply true depth .query) words tree rest)
    (ends : Session.EndsStatement rest) : TokensParseTo tokens tree := by
  have deep (settings : Settings) (precedence : settings.precedence = .adql)
      (unbounded : settings.ruleBudget = none) (short : settings.maxTokens = none)
      (enough : depth ≤ settings.maxDepth) : parseTokens tokens settings = ⟨some tree, []⟩ :=
    parseTokens_of_reads written reads ends precedence unbounded short enough
  refine ⟨⟨depth, deep⟩, fun settings precedence => ?_⟩
  let other : Settings :=
    { settings with maxErrors := 1, maxTokens := none, ruleBudget := none, maxDepth := depth }
  have whole : ((Session.ofTokens tokens settings).under other).parse = ⟨some tree, []⟩ :=
    deep other precedence rfl rfl (Nat.le_refl depth)
  have comparable : (Session.ofTokens tokens settings).Comparable other := ⟨rfl, rfl, rfl⟩
  have cutOff := comparable.cutOff_parse (by simp [whole]) (by simp [whole, other])
  rw [whole] at cutOff
  obtain ⟨common, before, same | ⟨limit, isLimit, same⟩⟩ := cutOff.errors
  · have none : (Session.ofTokens tokens settings).parse.errors = [] := by
      rw [same]
      exact List.prefix_nil.mp before
    exact .inl (cutOff.complete (by simp [none]) (by simp [none]))
  · exact .inr ⟨limit, by simp [parseTokens, same], isLimit⟩

end

/-! ### Texts that are parsed as a query -/

/-- The text is parsed without diagnostics as the query, whatever the settings are besides the
precedence table. -/
structure ParsesTo (text : String) (query : Query) : Prop where
  /-- Where rules may nest deep enough, and neither rules nor tokens are limited in number, the text is
  parsed so. -/
  deep : ∃ depth, ∀ settings : Settings, settings.precedence = .adql → settings.ruleBudget = none →
    settings.maxTokens = none → depth ≤ settings.maxDepth →
      parseText text settings = ⟨some query, []⟩
  /-- Otherwise it is parsed so as well, unless a limit is reported. -/
  limited : ∀ settings : Settings, settings.precedence = .adql →
    parseText text settings = ⟨some query, []⟩ ∨
      ∃ error ∈ (parseText text settings).errors, error.isLimit = true

section

variable {text source : String} {tokens : List Token} {words : List Word} {tree : Query}
  {settings : Settings}

/-- A text that is cut into tokens is parsed as they are. -/
theorem parseText_of_tokenize (cut : tokenize text = .ok tokens) (settings : Settings) :
    parseText text settings = (Session.ofTokens tokens settings).parse := by
  simp only [parseText, parseText?, cut]
  rfl

/-- A text that is parsed without diagnostics is parsed as a query. -/
theorem exists_tree_of_errors (clean : (parseText text settings).errors = []) :
    ∃ tree, parseText text settings = ⟨some tree, []⟩ := by
  cases cut : tokenize text with
  | error error =>
    simp only [parseText, parseText?, cut] at clean
    cases clean
  | ok tokens =>
    rw [parseText_of_tokenize cut] at clean ⊢
    obtain ⟨tree, found⟩ := Session.tree_of_errors_eq_nil rfl clean
    exact ⟨tree, by rw [← found, ← clean]⟩

/-- What strict parses read from the words of a text up to the end of the statement, the text is
parsed as, where rules may nest that deep and nothing else is limited. -/
theorem parseText_of_reads {depth : Nat} {rest : List Word} (cut : tokenize text = .ok tokens)
    (written : tokens.map Token.word = words ++ [endWord])
    (reads : Reads (apply true depth .query) words tree rest)
    (ends : Session.EndsStatement rest) (precedence : settings.precedence = .adql)
    (unbounded : settings.ruleBudget = none) (short : settings.maxTokens = none)
    (enough : depth ≤ settings.maxDepth) : parseText text settings = ⟨some tree, []⟩ := by
  rw [parseText_of_tokenize cut]
  exact parseTokens_of_reads written reads ends precedence unbounded short enough

/-- What the tokens of a text are parsed as, the text is parsed as. -/
theorem ParsesTo.of_tokens (cut : tokenize text = .ok tokens) (h : TokensParseTo tokens tree) :
    ParsesTo text tree := by
  obtain ⟨depth, deep⟩ := h.deep
  constructor
  · refine ⟨depth, fun settings precedence unbounded short enough => ?_⟩
    rw [parseText_of_tokenize cut]
    exact deep settings precedence unbounded short enough
  · intro settings precedence
    rw [parseText_of_tokenize cut]
    exact h.limited settings precedence

/-- What strict parses read from the words of a text up to the end of the statement, the text is
parsed as, or a limit is reported. -/
theorem ParsesTo.of_reads {depth : Nat} {rest : List Word} (cut : tokenize text = .ok tokens)
    (written : tokens.map Token.word = words ++ [endWord])
    (reads : Reads (apply true depth .query) words tree rest)
    (ends : Session.EndsStatement rest) : ParsesTo text tree :=
  .of_tokens cut (.of_reads written reads ends)

/-- The words that are left are the last ones of those that were left before. -/
theorem Session.Follows.words_suffix {before after : Session} (h : before.Follows after) :
    after.words <:+ before.words := by
  rw [words, words, h.tokens]
  exact (List.drop_suffix_drop_left _ h.position).map _

/-- The kind of the last token of a source in front of the end marker, if there is one. -/
def lastKind? (source : String) : Option TokenKind :=
  (tokenize source).toOption.bind fun tokens => tokens.dropLast.getLast?.map (·.kind)

/-- The kind of the last token is that of the last word. -/
theorem lastKind?_eq (cut : tokenize source = .ok tokens)
    (written : tokens.map Token.word = words ++ [endWord]) :
    lastKind? source = words.getLast?.map (·.kind) := by
  have same : words = tokens.dropLast.map Token.word := by
    rw [List.map_dropLast, written, List.dropLast_concat]
  rw [lastKind?, cut, same, List.getLast?_map, Option.map_map]
  rfl

/-- A source that is parsed without diagnostics is read by the rule for queries, up to the end of the
statement. -/
theorem reads_of_parse (precedence : settings.precedence = .adql)
    (unbounded : settings.ruleBudget = none)
    (clean : parseText source settings = ⟨some tree, []⟩) :
    ∃ tokens words rest, tokenize source = .ok tokens ∧
      tokens.map Token.word = words ++ [endWord] ∧ rest <:+ words ∧
      Reads (apply true settings.maxDepth .query) words tree rest ∧ Session.EndsStatement rest := by
  cases cut : tokenize source with
  | error error =>
    simp only [parseText, parseText?, cut] at clean
    cases clean
  | ok tokens =>
    obtain ⟨words, written, marked⟩ := exists_words_of_tokenize cut
    rw [parseText_of_tokenize cut,
      ← Session.parse_strict_clean_iff (Session.ends_ofTokens tokens settings) rfl] at clean
    have faces : (Session.ofTokens tokens settings).strict.Faces words settings.precedence
        (fun word => word.kind ≠ .eof) := Session.faces_ofTokens written marked rfl unbounded
    rw [precedence] at faces
    obtain ⟨after, hrun, finished⟩ := Session.applyRule_of_clean clean
    obtain ⟨rest, hafter, reads⟩ := Reads.of_run faces hrun
    have suffix := ((applyRule_moves .query _).follows_ok hrun).words_suffix
    rw [hafter.words_eq, faces.words_eq] at suffix
    exact ⟨tokens, words, rest, rfl, written, suffix, reads _ (Nat.le_refl _),
      hafter.rest_of_finished (fun _ => id) finished⟩

/-- A source that does not end with a semicolon and is parsed without diagnostics is read to the end
by the rule for queries. -/
theorem reads_of_clean (precedence : settings.precedence = .adql)
    (unbounded : settings.ruleBudget = none)
    (clean : parseText source settings = ⟨some tree, []⟩)
    (unterminated : lastKind? source ≠ some .semicolon) :
    ∃ tokens words, tokenize source = .ok tokens ∧ tokens.map Token.word = words ++ [endWord] ∧
      Reads (apply true settings.maxDepth .query) words tree [] := by
  obtain ⟨tokens, words, rest, cut, written, ⟨front, split⟩, reads, rfl | ⟨word, rfl, semicolon⟩⟩ :=
    reads_of_parse precedence unbounded clean
  · exact ⟨tokens, words, cut, written, reads⟩
  · refine absurd ?_ unterminated
    rw [lastKind?_eq cut written, ← split, List.getLast?_concat]
    exact congrArg some semicolon

end

/-! ### Queries within queries -/

/-- The query is read where the source stands in parentheses, in each place of a query where the
grammar asks for one.  A newline in front of the closing parenthesis ends the comment that the source
may end with. -/
structure Composes (source : String) (query : Query) : Prop where
  /-- Behind `EXISTS`, the source is the query that is tested. -/
  whereExists : ParsesTo ("SELECT a FROM t WHERE EXISTS (" ++ source ++ "\n)")
    (.ofSpec (selecting (.simpleColumn "a") (.simpleTable "t") (some (.exists query))))
  /-- With a name, the source is a table. -/
  fromQuery : ParsesTo ("SELECT a FROM (" ++ source ++ "\n) AS x")
    (.ofSpec (selecting (.simpleColumn "a") (.subquery query (.regular "x")) none))
  /-- Behind a name and `AS`, the source is a common table. -/
  withQuery : ParsesTo ("WITH x AS (" ++ source ++ "\n) SELECT a FROM x")
    ⟨[⟨.regular "x", [], query⟩],
      .spec (selecting (.simpleColumn "a") (.simpleTable "x") none), [], none⟩
  /-- In front of a set operator, the source is its operand. -/
  queryUnion : ParsesTo ("(" ++ source ++ "\n) UNION SELECT a FROM t")
    ⟨[], .setOperation .union false (.nested query)
      (.spec (selecting (.simpleColumn "a") (.simpleTable "t") none)), [], none⟩
  /-- In a select list, the source is a subquery; exactly if the query is nothing but a query in
  parentheses, the parentheses are read as those of an expression. -/
  selectQuery : ∃ item, ParsesTo ("SELECT (" ++ source ++ "\n) FROM t")
      (.ofSpec (selecting item (.simpleTable "t") none)) ∧
    ((∀ inner, query ≠ Query.inParentheses inner) ∧ item = .subquery query ∨
      ∃ count core, 0 < count ∧ (∀ inner, core ≠ Query.inParentheses inner) ∧
        query = Query.inParentheses^[count] core ∧ item = Expr.paren^[count] (.subquery core))

/-- What strict parses read from words with the words of a source in parentheses among them, the text
with the source in parentheses is parsed as. -/
theorem ParsesTo.of_enclosed {source front back : String} {tokens : List Token} {words : List Word}
    {tree : Query} (cut : tokenize source = .ok tokens)
    (written : tokens.map Token.word = words ++ [endWord]) (frontWords backWords : List Word)
    (opens : front.toList = (frontWords.flatMap fun word => word.lexeme.toList ++ [' ']) ++ ['('])
    (closes : back.toList = '\n' :: ')' :: backWords.flatMap fun word => ' ' :: word.lexeme.toList)
    (spelled : ∀ word ∈ frontWords ++ backWords, word.Spelled)
    (reads : ∃ depth, Reads (apply true depth .query) (frontWords ++ enclosed words ++ backWords) tree
      []) : ParsesTo (front ++ source ++ back) tree := by
  obtain ⟨all, cut, written⟩ := tokenize_enclosed cut written opens closes spelled
  obtain ⟨depth, reads⟩ := reads
  exact .of_reads cut written reads (.inl rfl)

/-- A source that is parsed without diagnostics and does not end with a semicolon may be put in
parentheses wherever the grammar asks for a query; it is read as the same query there. -/
theorem composes_of_clean {source : String} {query : Query} {settings : Settings}
    (precedence : settings.precedence = .adql) (unbounded : settings.ruleBudget = none)
    (clean : parseText source settings = ⟨some query, []⟩)
    (unterminated : lastKind? source ≠ some .semicolon) : Composes source query := by
  obtain ⟨tokens, words, cut, written, reads⟩ := reads_of_clean precedence unbounded clean unterminated
  let a : Identifier := .regular "a"
  let t : Identifier := .regular "t"
  let x : Identifier := .regular "x"
  have validA : a.Valid := isName_letter "a" (by simp)
  have validT : t.Valid := isName_letter "t" (by simp)
  have validX : x.Valid := isName_letter "x" (by simp)
  refine ⟨?whereExists, ?fromQuery, ?withQuery, ?queryUnion, ?selectQuery⟩
  case whereExists =>
    refine .of_enclosed cut written [Keyword.SELECT.word, a.word, Keyword.FROM.word, t.word,
      Keyword.WHERE.word, Keyword.EXISTS.word] [] (by decide +kernel) (by decide +kernel) ?_ ?_
    · simp [Keyword.spelled_word, validA.spelled, validT.spelled]
    · rw [List.append_nil]
      exact reads_whereExists reads validA validT
  case fromQuery =>
    refine .of_enclosed cut written [Keyword.SELECT.word, a.word, Keyword.FROM.word]
      [Keyword.AS.word, x.word] (by decide +kernel) (by decide +kernel) ?_
      (reads_fromQuery reads validA validX)
    simp [Keyword.spelled_word, validA.spelled, validX.spelled]
  case withQuery =>
    refine .of_enclosed cut written [Keyword.WITH.word, x.word, Keyword.AS.word]
      [Keyword.SELECT.word, a.word, Keyword.FROM.word, x.word] (by decide +kernel) (by decide +kernel)
      ?_ (reads_withQuery reads validX validA validX)
    simp [Keyword.spelled_word, validA.spelled, validX.spelled]
  case queryUnion =>
    refine .of_enclosed cut written []
      [Keyword.UNION.word, Keyword.SELECT.word, a.word, Keyword.FROM.word, t.word]
      (by decide +kernel) (by decide +kernel) ?_ (reads_queryUnion reads validA validT)
    simp [Keyword.spelled_word, validA.spelled, validT.spelled]
  case selectQuery =>
    obtain ⟨depth, item, stands, reads⟩ := reads_selectQuery reads validT
    refine ⟨item, .of_enclosed cut written [Keyword.SELECT.word] [Keyword.FROM.word, t.word]
      (by decide +kernel) (by decide +kernel) ?_ ⟨depth, reads⟩, ?_⟩
    · simp [Keyword.spelled_word, validT.spelled]
    · obtain ⟨count, core, bare, rfl, rfl⟩ := stands.exists_iterate
      cases count with
      | zero => exact .inl ⟨bare, rfl⟩
      | succ count => exact .inr ⟨count + 1, core, Nat.succ_pos count, bare, rfl, rfl⟩

/-- A query in two pairs of parentheses, with a comment behind it. -/
def wrappedSource : String :=
  "((SELECT b FROM s WHERE b IN (1, 2) OR EXISTS (SELECT * FROM r))) -- wrapped"

/-- A source that ends with a comment may be put in parentheses. -/
theorem composes_of_clean_wrapped : ∃ query, parseText wrappedSource {} = ⟨some query, []⟩ ∧
    lastKind? wrappedSource = some .rightParen ∧ Composes wrappedSource query := by
  have parsed : (parseText wrappedSource {}).tree.isSome = true ∧
      (parseText wrappedSource {}).errors = [] := by decide +kernel
  have last : lastKind? wrappedSource = some .rightParen := by decide +kernel
  obtain ⟨present, errors⟩ := parsed
  obtain ⟨query, found⟩ := Option.isSome_iff_exists.mp present
  have clean : parseText wrappedSource {} = ⟨some query, []⟩ := by rw [← found, ← errors]
  exact ⟨query, clean, last, composes_of_clean rfl rfl clean (by rw [last]; nofun)⟩

end Adql
