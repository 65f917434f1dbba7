import Adql.Proofs.RoundTrip.Parses
import Adql.Proofs.RoundTrip.Preservation
import Adql.Proofs.RoundTrip.Printing
import Adql.Proofs.RoundTrip.Sources

/-!
# Parsing printed queries again

A query that was parsed without diagnostics is printed, and the text is parsed again.  The printer
puts an operand in parentheses where it binds looser than its place allows, but the grammar also
reads such operands bare: the right operand of `a IS NULL + 1` is read at the level of the whole
expression.  So the printed text is parsed as the same query exactly if the printer adds no
parentheses (`reparses_iff`).
-/

namespace Adql

open Adql.Parser Adql.Grammar Adql.Text

/-! ### Parses without diagnostics -/

namespace Session

/-- What a parse without diagnostics yields, the rule for queries yields, up to what may stand at the
end of a statement. -/
theorem applyRule_of_clean {session : Session} {tree : Query}
    (clean : session.parse = ⟨some tree, []⟩) :
    ∃ after, applyRule .query session = .ok tree after ∧ after.finished.errors.toList = [] := by
  cases limited : session.tokenLimit? with
  | some error =>
    rw [Session.parse, parseWith, limited] at clean
    cases clean
  | none =>
    cases hrun : applyRule .query session with
    | error failure after =>
      rw [parse_of_error limited hrun] at clean
      cases clean
    | ok tree' after =>
      rw [parse_of_ok limited hrun] at clean
      split at clean
      · cases clean
      · obtain ⟨same, finished⟩ := Outcome.mk.inj clean
        cases same
        exact ⟨after, rfl, finished⟩

variable {words : List Word}

/-- What may be left at the end of a statement: nothing, or a semicolon. -/
def EndsStatement (words : List Word) : Prop :=
  words = [] ∨ ∃ word, words = [word] ∧ word.kind = .semicolon

namespace Faces

variable {session : Session} {tree : Query} {good : Word → Prop}

/-- The end marker stands in front of the session only if no words are left. -/
theorem eq_nil_of_current_kind (h : session.Faces words .adql good)
    (marked : ∀ word, good word → word.kind ≠ .eof) (ends : session.current.kind = .eof) :
    words = [] := by
  cases words with
  | nil => rfl
  | cons word rest => exact absurd (h.current_kind.symm.trans ends) (marked word h.sound_head)

/-- Nothing is reported at the end of a statement only if at most a semicolon is left. -/
theorem rest_of_finished (h : session.Faces words .adql good)
    (marked : ∀ word, good word → word.kind ≠ .eof)
    (clean : session.finished.errors.toList = []) : EndsStatement words := by
  unfold finished at clean
  rw [eat_run, h.current_kind] at clean
  by_cases there : firstKind words = .semicolon
  · obtain ⟨word, rest, rfl, hkind⟩ := exists_cons_of_firstKind (by nofun) there
    simp only [there, ↓reduceIte, sessionAfter] at clean
    split at clean
    · next ends =>
      rw [h.advance.eq_nil_of_current_kind marked ends]
      exact .inr ⟨word, rfl, hkind⟩
    · simp [errors_reporting] at clean
  · simp only [there, ↓reduceIte, sessionAfter] at clean
    split at clean
    · next ends => exact .inl ((h.noting _).eq_nil_of_current_kind marked ends)
    · simp [errors_reporting] at clean

/-- No parentheses are left at the end of a statement if nothing is reported there. -/
theorem openings_of_finished (h : session.Faces words)
    (clean : session.finished.errors.toList = []) : openings words = 0 := by
  rcases h.rest_of_finished (fun _ => Word.Sound.kind_ne) clean with rfl | ⟨word, rfl, hkind⟩
  · rfl
  · simp [hkind]

/-- Nothing is reported at the end of a statement if at most a semicolon is left. -/
theorem finished_of_ends (h : session.Faces words .adql good) (ends : EndsStatement words) :
    session.finished.errors.toList = [] := by
  unfold finished
  rw [eat_run, h.current_kind]
  rcases ends with rfl | ⟨word, rfl, hkind⟩
  · have ends : (session.noting .semicolon).current.kind = .eof := (h.noting _).current_kind
    simp only [firstKind_nil, reduceCtorEq, ↓reduceIte, sessionAfter, ends]
    rw [(h.noting _).clean]
  · have ends := h.advance.current_kind
    rw [firstKind_cons, hkind, if_pos rfl]
    simp only [sessionAfter, ends, firstKind_nil, ↓reduceIte]
    rw [h.clean]

/-- What a strict parse without diagnostics read is preserved; no parentheses are left behind it. -/
theorem preserved_of_clean (h : session.Faces words) (clean : session.parse = ⟨some tree, []⟩) :
    ∃ rest, openings rest = 0 ∧
      Preserved .query (apply true session.settings.maxDepth .query) words tree rest := by
  obtain ⟨after, hrun, finished⟩ := applyRule_of_clean clean
  obtain ⟨rest, faces, preserved⟩ :=
    (keeps_rules session.settings.maxDepth).preserves .query words trivial session after tree h hrun
  exact ⟨rest, faces.openings_of_finished finished, preserved⟩

/-- A strict parse that reads a query up to the end of a statement is without diagnostics. -/
theorem clean_of_reads (h : session.Faces words .adql good) (short : session.settings.maxTokens = none)
    {rest : List Word} (reads : Reads (apply true session.settings.maxDepth .query) words tree rest)
    (ends : EndsStatement rest) : session.parse = ⟨some tree, []⟩ := by
  have unlimited := tokenLimit?_eq_none short
  obtain ⟨after, hrun, faces⟩ := reads _ session h
  rw [parse_of_ok unlimited hrun, faces.running, faces.finished_of_ends ends]
  rfl

end Faces

/-- A parse without diagnostics is the same with and without recovery. -/
theorem parse_strict_clean_iff {session : Session} {tree : Query} (ends : session.Ends)
    (running : session.halted = false) :
    session.strict.parse = ⟨some tree, []⟩ ↔ session.parse = ⟨some tree, []⟩ := by
  rcases parse_agree_strict ends running with ⟨tree', loud, quiet⟩ | ⟨error, loud, quiet⟩
  · rw [loud, quiet]
  · constructor
    · intro clean
      rw [clean] at quiet
      cases quiet
    · intro clean
      rw [clean] at loud
      cases loud

end Session

/-! ### Statements -/

section

variable {text : String} {tokens : List Token} {words : List Word}

/-- A text that is cut into words that can be written is parsed without diagnostics exactly if a
strict parse of the words is. -/
theorem parseText_clean (tree : Query) (cut : tokenize text = .ok tokens)
    (written : tokens.map Token.word = words ++ [endWord]) (sound : ∀ word ∈ words, word.Sound) :
    ∃ session : Session, session.Faces words ∧ session.settings.maxTokens = none ∧
      session.settings.maxDepth = ({} : Settings).maxDepth ∧
      (session.parse = ⟨some tree, []⟩ ↔ parseText text {} = ⟨some tree, []⟩) := by
  refine ⟨(Session.ofTokens tokens {}).strict,
    Session.faces_ofTokens written sound rfl rfl, rfl, rfl, ?_⟩
  rw [Session.parse_strict_clean_iff (Session.ends_ofTokens tokens {}) rfl]
  have parsed : parseText text {} = (Session.ofTokens tokens {}).parse := by
    simp only [parseText, parseText?, cut]
    rfl
  rw [parsed]

/-- A query that was parsed without diagnostics is printed as a text that is parsed without
diagnostics as the same query exactly if the printer adds no parentheses to it.  Of the real numbers
in the source it is assumed that their written forms are read again. -/
theorem reparses_iff (source : String) (tree : Query)
    (rereads : ∀ tokens, tokenize source = .ok tokens → ∀ token ∈ tokens, token.Rereads)
    (clean : parseText source {} = ⟨some tree, []⟩) :
    parseText tree.text {} = ⟨some tree, []⟩ ↔ tree.addedParentheses = 0 := by
  cases cut : tokenize source with
  | error error =>
    simp only [parseText, parseText?, cut] at clean
    cases clean
  | ok tokens =>
    obtain ⟨words, written, sound⟩ := Lexer.words_of_tokens cut (rereads tokens cut)
    obtain ⟨session, faces, -, deep, iff⟩ := parseText_clean tree cut written sound
    obtain ⟨rest, _, kept, _⟩ := faces.preserved_of_clean (iff.mpr clean)
    have bare : ∀ word ∈ tree.words false, word.Spelled := kept.spelled
    have printed : ∀ word ∈ tree.words true, word.Spelled := by
      intro word hword
      rcases tree.adds.mem word hword with h | rfl | rfl
      · exact bare word h
      · rfl
      · rfl
    obtain ⟨tokens', cut', written'⟩ := tree.prints.tokenize printed
    obtain ⟨session', faces', short', deep', iff'⟩ := parseText_clean tree cut' written'
      fun word hword => (printed word hword).sound
    rw [← iff']
    constructor
    · intro again
      obtain ⟨rest', closed, kept', _⟩ := faces'.preserved_of_clean again
      have same : openings (tree.words true) = openings (tree.words false) + openings rest' :=
        kept'.openings_eq
      have more := tree.adds.openings_eq
      omega
    · intro none
      have reads : Reads _ (tree.words false ++ []) tree [] := kept.reads []
        (show TokenKind.eof ∈ afterQuery by decide)
      rw [List.append_nil, ← tree.adds.eq none, deep, ← deep'] at reads
      exact faces'.clean_of_reads short' reads (.inl rfl)

end

/-- A text with parentheses, a real number and prefix operators. -/
def shiftedSource : String :=
  "SELECT -a AS b FROM t WHERE (a + 1.5) * 2 > 0 OR NOT a BETWEEN 1 AND 2"

/-- A query without added parentheses is parsed again as itself. -/
theorem reparses_shifted : ∃ tree, parseText shiftedSource {} = ⟨some tree, []⟩ ∧
    parseText tree.text {} = ⟨some tree, []⟩ := by
  have errors : (parseText shiftedSource {}).errors = [] := by decide +kernel
  have added : (parseText shiftedSource {}).tree.map Query.addedParentheses = some 0 := by
    decide +kernel
  obtain ⟨tree, htree, none⟩ := Option.map_eq_some_iff.mp added
  have clean : parseText shiftedSource {} = ⟨some tree, []⟩ := by rw [← htree, ← errors]
  refine ⟨tree, clean, (reparses_iff shiftedSource tree (fun tokens cut => ?_) clean).mpr none⟩
  have rereads : ∀ tokens ∈ (tokenize shiftedSource).toOption, ∀ token ∈ tokens,
      token.Rereads := by decide +kernel
  exact rereads tokens (by rw [cut]; rfl)

/-- A text in which a test for null is the left operand of a sum. -/
def nullSumSource : String :=
  "SELECT a FROM t WHERE a IS NULL + 1"

/-- A query with added parentheses is parsed as another one when it has been printed. -/
theorem nullSum_reparses_otherwise : ∃ tree, parseText nullSumSource {} = ⟨some tree, []⟩ ∧
    parseText tree.text {} ≠ ⟨some tree, []⟩ := by
  have errors : (parseText nullSumSource {}).errors = [] := by decide +kernel
  have added : (parseText nullSumSource {}).tree.map Query.addedParentheses = some 1 := by
    decide +kernel
  have again : (parseText nullSumSource {}).tree.map (fun tree =>
      (parseText tree.text {}).tree.map Query.addedParentheses) = some (some 0) := by
    decide +kernel
  obtain ⟨tree, htree, one⟩ := Option.map_eq_some_iff.mp added
  refine ⟨tree, by rw [← htree, ← errors], fun same => ?_⟩
  rw [htree, Option.map_some, same, Option.map_some, one] at again
  cases again

end Adql
