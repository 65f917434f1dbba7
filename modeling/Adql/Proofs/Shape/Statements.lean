import Adql.Proofs.RoundTrip.Reparsing
import Adql.Proofs.Shape.Queries

/-!
# Trees of statements are well formed

Whatever the text and the settings are, the tree of a parse is well formed under the precedence
table of the settings (`parseText_wellFormed`).  It is whole if the parse does not recover from
failures, or if it had no failure to recover from: `Session.parse_agree_strict` says that without
diagnostics recovery makes no difference.
-/

namespace Adql

open Adql.Parser Adql.Grammar

/-! ### Sessions in front of a text -/

variable {text : String} {tokens : List Token} {settings : Settings}

/-- The place of a statement. -/
def Settings.outside (settings : Settings) : Place :=
  ⟨settings.precedence, settings.recover, 0⟩

/-- The tokens of a text make a genuine cursor. -/
theorem TokenCursor.genuine_ofTokens (cut : tokenize text = .ok tokens) :
    (TokenCursor.ofTokens tokens).Genuine := by
  obtain ⟨front, last, rfl, final, hfront⟩ := Lexer.genuine_of_tokens cut
  have cursor : TokenCursor.ofTokens (front ++ [last]) = ⟨front.toArray, last, 0⟩ := by
    simp [TokenCursor.ofTokens, Token.isEnd, final]
  rw [cursor]
  exact ⟨final, hfront⟩

namespace Session

/-- A session in front of a text is outside of queries. -/
theorem at_ofTokens (cut : tokenize text = .ok tokens) (settings : Settings) :
    (ofTokens tokens settings).At settings.outside :=
  ⟨rfl, rfl, rfl, TokenCursor.genuine_ofTokens cut⟩

/-- Nothing has been looked for in front of a text. -/
theorem telling_ofTokens : (ofTokens tokens settings).Telling :=
  ⟨nofun, nofun⟩

variable {session : Session} {place : Place} {tree : Query}

/-- The query of a statement is well formed, or its failure tells why. -/
theorem granted_query (at' : session.At place) (telling : session.Telling) :
    Granted (fun query _ => query.WellFormed place.table (place.inside .query).isWhole) session
      (applyRule .query session) :=
  (grants_rules true session.settings.maxDepth).grants place .query (Nat.succ_pos _) session at'
    telling trivial

/-- The tree of a statement is well formed. -/
theorem wellFormed_of_tree (at' : session.At place) (telling : session.Telling)
    (found : session.parse.tree = some tree) :
    tree.WellFormed place.table (place.inside .query).isWhole := by
  cases short : session.tokenLimit? with
  | some error =>
    rw [parse, parseWith, short] at found
    cases found
  | none =>
    have granted := granted_query at' telling
    cases run : applyRule .query session with
    | error failure after =>
      rw [parse_of_error short run] at found
      cases found
    | ok query after =>
      rw [run] at granted
      rw [parse_of_ok short run] at found
      split at found
      · cases found
      · cases found
        cases granted with
        | ok _ _ wellFormed => exact wellFormed

end Session

/-- A text that has a tree is cut into tokens, and these are parsed. -/
theorem exists_tokens_of_tree {tree : Query} (found : (parseText text settings).tree = some tree) :
    ∃ tokens, tokenize text = .ok tokens ∧
      parseText text settings = (Session.ofTokens tokens settings).parse := by
  cases cut : tokenize text with
  | error error =>
    simp only [parseText, parseText?, cut] at found
    cases found
  | ok tokens =>
    refine ⟨tokens, rfl, ?_⟩
    simp only [parseText, parseText?, cut]
    rfl

/-- The tree of a parse is well formed, whatever the text and the settings are.  It is whole if the
parse does not recover from failures, or if it has no diagnostics. -/
theorem parseText_wellFormed (text : String) (settings : Settings) (tree : Query)
    (found : (parseText text settings).tree = some tree) :
    tree.WellFormed settings.precedence
      (!settings.recover || (parseText text settings).errors.isEmpty) := by
  obtain ⟨tokens, cut, parsed⟩ := exists_tokens_of_tree found
  rw [parsed] at found ⊢
  have running : (Session.ofTokens tokens settings).halted = false := rfl
  have agree := Session.parse_agree_strict (Session.ends_ofTokens tokens settings) running
  rcases agree with ⟨tree', loud, strict⟩ | ⟨error, loud, _⟩
  · have same : tree' = tree := by
      rw [loud] at found
      exact Option.some.inj found
    have whole : tree.WellFormed settings.precedence true :=
      Session.wellFormed_of_tree (Session.at_ofTokens cut { settings with recover := false })
        Session.telling_ofTokens (same ▸ congrArg (·.tree) strict)
    rw [loud, List.isEmpty_nil, Bool.or_true]
    exact whole
  · have wellFormed := Session.wellFormed_of_tree (Session.at_ofTokens cut settings)
      Session.telling_ofTokens found
    have some : (Session.ofTokens tokens settings).parse.errors.isEmpty = false := by
      rw [List.isEmpty_eq_false_iff]
      rintro none
      rw [none] at loud
      cases loud
    rw [some, Bool.or_false]
    simpa [Place.isWhole, Place.inside, Rule.opensQuery, Settings.outside] using wellFormed

/-- A text in which neither an item nor a table can be read. -/
def holeySource : String :=
  "SELECT , FROM WHERE a = 1"

/-- What cannot be read is left out of the tree. -/
theorem parseText_wellFormed_holey : ∃ tree, (parseText holeySource {}).tree = some tree ∧
    tree.spec?.map (fun spec => (spec.items.length, spec.tables.length)) = some (0, 0) ∧
      tree.WellFormed PrecedenceTable.adql false := by
  have holes : (parseText holeySource {}).tree.map (fun tree =>
      tree.spec?.map fun spec => (spec.items.length, spec.tables.length)) = some (some (0, 0)) := by
    decide +kernel
  have loud : (!({} : Settings).recover || (parseText holeySource {}).errors.isEmpty) = false := by
    decide +kernel
  obtain ⟨tree, found, empty⟩ := Option.map_eq_some_iff.mp holes
  exact ⟨tree, found, empty, loud ▸ parseText_wellFormed holeySource {} tree found⟩

/-- The left operand of the binary operator that is outermost in a condition stands too loose. -/
def Query.hasLooseOperand (tree : Query) : Bool :=
  match tree.spec?.bind (·.condition) with
  | some (.binary left op _) =>
    !left.isUnary && !decide (left.BindsAt .adql (PrecedenceTable.adql.binaryLevel op))
  | _ => false

/-- A test for null is the left operand of a sum, although it binds looser. -/
theorem nullSum_stands_loose : ∃ tree left op right, parseText nullSumSource {} = ⟨some tree, []⟩ ∧
    tree.spec?.bind (·.condition) = some (.binary left op right) ∧ left.isUnary = false ∧
      ¬left.BindsAt .adql (PrecedenceTable.adql.binaryLevel op) := by
  have errors : (parseText nullSumSource {}).errors = [] := by decide +kernel
  have loose : (parseText nullSumSource {}).tree.any Query.hasLooseOperand = true := by
    decide +kernel
  obtain ⟨tree, found, loose⟩ := (Option.any_eq_true _ _).mp loose
  unfold Query.hasLooseOperand at loose
  split at loose
  · next left op right condition =>
    refine ⟨tree, left, op, right, by rw [← found, ← errors], condition, ?_⟩
    simpa using loose
  · cases loose

end Adql
