import Adql.Proofs.Composition.Statements
import Adql.Proofs.Flat.Queries

/-!
# Flat statements are parsed

A limit on how deep rules may nest does not limit how long a statement is: a flat one is parsed without
diagnostics wherever rules may nest 21 levels deep (`flat_statement_parses` asks for a few more).
-/

namespace Adql

open Adql.Parser Adql.Grammar

/-- Tokens of one word are spelled like tokens of texts, or neither is. -/
theorem Token.Genuine.of_word {token other : Token} (h : token.Genuine)
    (same : other.word = token.word) : other.Genuine := by
  obtain ⟨_, _, _⟩ := token
  obtain ⟨_, _, _⟩ := other
  cases same
  exact ⟨h.counts, h.reals, h.literal⟩

namespace Flat

variable {source : String} {tokens : List Token} {settings : Settings}

/-- The words of a source whose tokens are a text of a pattern are one. -/
theorem matches_of_tokenize {pattern : Pattern} (cut : tokenize source = .ok tokens)
    (text : tokens.map Token.kind ∈ pattern.matches') :
    Matches pattern (tokens.map Token.word) := by
  refine ⟨?_, fun word found => ?_⟩
  · rw [List.map_map]
    exact text
  · obtain ⟨token, listed, rfl⟩ := List.mem_map.mp found
    have genuine : token.Genuine := by
      obtain ⟨front, last, rfl, final, all⟩ := Lexer.genuine_of_tokens cut
      rcases List.mem_append.mp listed with inner | ends
      · exact (all token inner).2
      · obtain rfl := List.mem_singleton.mp ends
        exact Token.genuine_of_kind (by rw [final]; nofun) (by rw [final]; nofun)
    exact genuine.of_word rfl

/-- The words of a flat statement are those of a flat query, at most a semicolon, and the end marker. -/
theorem exists_query_of_statement {words : List Word}
    (text : Matches statement (words ++ [endWord])) :
    ∃ front rest, words = front ++ rest ∧ Matches query front ∧ Session.EndsStatement rest := by
  obtain ⟨front, _, split, flat, others⟩ := text.mul
  obtain ⟨rest, _, rfl, optional, final⟩ := others.mul
  obtain ⟨_, _, rfl, -, -, nothing⟩ := final.char_mul
  obtain rfl := nothing.one
  rw [← List.append_assoc] at split
  refine ⟨front, rest, (List.append_inj_left' split rfl), flat, ?_⟩
  rcases optional.perhaps with rfl | semicolon
  · exact .inl rfl
  · obtain ⟨word, rfl, same, -⟩ := semicolon.char
    exact .inr ⟨word, rfl, same⟩

end Flat

/-- A flat statement is parsed without diagnostics, however long it is. -/
theorem flat_statement_parses {source : String} {tokens : List Token} {settings : Settings}
    (cut : tokenize source = .ok tokens)
    (flat : tokens.map Token.kind ∈ Flat.statement.matches')
    (precedence : settings.precedence = .adql) (deep : 32 ≤ settings.maxDepth)
    (unbounded : settings.ruleBudget = none) (short : settings.maxTokens = none) :
    ∃ tree, parseText source settings = ⟨some tree, []⟩ := by
  obtain ⟨words, written, -⟩ := exists_words_of_tokenize cut
  have text := Flat.matches_of_tokenize cut flat
  rw [written] at text
  obtain ⟨front, rest, rfl, query, ends⟩ := Flat.exists_query_of_statement text
  have follows : firstKind rest ∈ afterQuery := by
    rcases ends with rfl | ⟨word, rfl, same⟩
    · decide
    · rw [firstKind_cons, same]
      decide
  obtain ⟨tree, read⟩ := Flat.reads_query front rest query follows
  have enough : 21 ≤ settings.maxDepth := Nat.le_trans (by decide) deep
  exact ⟨tree, parseText_of_reads cut written read ends precedence unbounded short enough⟩

/-- A union of selections, the first with a chain of operators and a product, is flat. -/
theorem flat_statement_parses_union :
    ∃ tokens tree,
      tokenize "SELECT a.b + 1 FROM t CROSS JOIN u UNION SELECT * FROM v" =
        .ok tokens ∧
      tokens.map Token.kind ∈ Flat.statement.matches' ∧
      parseText "SELECT a.b + 1 FROM t CROSS JOIN u UNION SELECT * FROM v"
        { maxDepth := 32 } = ⟨some tree, []⟩ := by
  generalize hsource :
    "SELECT a.b + 1 FROM t CROSS JOIN u UNION SELECT * FROM v" = source
  have flat : ((tokenize source).toOption.any fun tokens =>
      Flat.statement.rmatch (tokens.map Token.kind)) = true := by
    subst hsource
    decide +kernel
  cases cut : tokenize source with
  | error error =>
    rw [cut] at flat
    cases flat
  | ok tokens =>
    rw [cut] at flat
    have text := (Flat.statement.rmatch_iff_matches' (tokens.map Token.kind)).mp flat
    have parses : ∃ tree, parseText source { maxDepth := 32 } = ⟨some tree, []⟩ :=
      flat_statement_parses cut text rfl (Nat.le_refl 32) rfl rfl
    obtain ⟨tree, parsed⟩ := parses
    exact ⟨tokens, tree, rfl, text, parsed⟩

end Adql
