import Adql.Proofs.RoundTrip.Cutting
import Mathlib.Data.List.Forall2

/-!
# Printed trees

The text of a tree is cut into the words of the tree with the parentheses that the printer adds, if
each of them is written as the printer writes words (`Query.prints`).  The proof goes by the
structure of trees: each text is put together from pieces as the words are from rows of words.
-/

namespace Adql

open Adql.Text Adql.Decimal

/-! ### Names and literals -/

/-- The text of a name is that of its word. -/
theorem Identifier.text_eq (identifier : Identifier) :
    identifier.text = identifier.word.lexeme := by
  unfold Identifier.word
  split
  · rfl
  · next regular =>
    have plain : identifier.text = identifier.value := by simp [Identifier.text, regular]
    rw [plain]
    split <;> rfl

/-- Does the text start with a character that ends names? -/
abbrev EndsName (text : List Char) : Prop :=
  StartsAmong [' ', ')', ',', '(', '.'] text

/-- The word of a name is a name or a reserved word. -/
theorem Identifier.word_kind (identifier : Identifier) :
    identifier.word.kind = .delimitedIdentifier ∨ identifier.word.kind = .identifier ∨
      ∃ keyword, identifier.word.kind = .keyword keyword := by
  unfold Identifier.word
  split
  · exact .inl rfl
  · split
    · exact .inr (.inr ⟨_, rfl⟩)
    · exact .inr (.inl rfl)

/-- A name is printed in front of what ends names. -/
theorem Identifier.prints (identifier : Identifier) :
    Prints EndsName identifier.text [identifier.word] := by
  have fits : identifier.word.kind.Fits = EndsName := by
    obtain kind | kind | ⟨_, kind⟩ := identifier.word_kind <;> rw [kind] <;> rfl
  rw [identifier.text_eq, ← fits]
  exact Prints.word identifier.word

/-- A name is printed in front of whatever ends every word. -/
theorem Identifier.prints_apart (identifier : Identifier) :
    Prints Apart identifier.text [identifier.word] :=
  identifier.prints.mono fun _ apart => apart.endsName

/-- The text of a name does not start with a digit. -/
theorem Identifier.text_head {identifier : Identifier} (written : identifier.word.Written) :
    ∃ c text, identifier.text.toList = c :: text ∧ c.isDigit = false := by
  rw [identifier.text_eq]
  have kind := identifier.word_kind
  generalize identifier.word = word at written kind
  obtain (spelled | ⟨_, _, recognized⟩) | ⟨integer, _⟩ := written
  · obtain ⟨_, lexeme⟩ := word
    obtain rfl | rfl | ⟨keyword, rfl⟩ := kind
    · obtain ⟨name, _, rfl⟩ := spelled
      exact ⟨'"', double '"' name.toList ++ ['"'], by simp [Text.quoted], by decide⟩
    · obtain ⟨first, text, written, starts, _⟩ := spelled
      exact ⟨first, text, written, isDigit_of_startsWord starts⟩
    · obtain rfl : lexeme = keyword.spelling := spelled
      obtain ⟨first, text, written, starts, _⟩ := keyword.isWord
      exact ⟨first, text, written, isDigit_of_startsWord starts⟩
  · obtain ⟨first, text, written, starts, _⟩ := Keyword.isWord_of_ofWord? recognized
    exact ⟨first, text, written, isDigit_of_startsWord starts⟩
  · rw [integer] at kind
    rcases kind with kind | kind | ⟨_, kind⟩ <;> cases kind

/-- A text that is printed and does not start with a digit, so that it may stand behind a point. -/
structure Continues (follows : List Char → Prop) (text : String) (words : List Word) : Prop where
  /-- The text is put together from the words. -/
  prints : Prints follows text words
  /-- The text does not start with a digit. -/
  head : (∀ word ∈ words, word.Written) →
    ∃ c rest, text.toList = c :: rest ∧ c.isDigit = false

/-- Qualifying names with their points go in front of what may stand behind a point. -/
theorem Continues.qualified {follows : List Char → Prop} {text : String} {words : List Word}
    (h : Continues follows text words) (qualifier : List Identifier) :
    Continues follows (qualifierText qualifier ++ text) (qualifierWords qualifier ++ words) := by
  induction qualifier with
  | nil => simpa [qualifierText, qualifierWords] using h
  | cons part rest ih =>
    have shape : qualifierText (part :: rest) ++ text =
        part.text ++ ("." ++ (qualifierText rest ++ text)) := by
      simp only [qualifierText, String.append_assoc]
    rw [shape]
    refine ⟨fun spelled behind fits => ?_, fun spelled => ?_⟩
    · obtain ⟨first, others⟩ := List.forall_mem_cons.mp spelled
      obtain ⟨point, others⟩ := List.forall_mem_cons.mp others
      obtain ⟨c, tail, written, noDigit⟩ := ih.head others
      have laid := ih.prints others behind fits
      have pointFits : TokenKind.dot.Fits ((qualifierText rest ++ text).toList ++ behind) := by
        rw [written]
        intro d hd
        obtain rfl : c = d := Option.some.inj hd
        exact noDigit
      have laid : Laid behind ('.' :: ((qualifierText rest ++ text).toList ++ behind))
          (TokenKind.dot.word :: (qualifierWords rest ++ words)) :=
        .word point pointFits laid
      have name := part.prints (fun word mem => List.mem_singleton.mp mem ▸ first)
        ('.' :: ((qualifierText rest ++ text).toList ++ behind)) (startsAmong_cons _ (by decide))
      rw [String.toList_append, String.toList_append]
      simpa [qualifierWords] using name.trans laid
    · obtain ⟨first, _⟩ := List.forall_mem_cons.mp spelled
      obtain ⟨c, tail, written, noDigit⟩ := Identifier.text_head first
      exact ⟨c, _, by rw [String.toList_append, written]; rfl, noDigit⟩

/-- A qualified name is printed in front of what ends names. -/
theorem QualifiedName.prints (name : QualifiedName) : Prints EndsName name.text name.words := by
  have last : Continues EndsName name.name.text [name.name.word] :=
    ⟨name.name.prints, fun spelled => Identifier.text_head (spelled _ List.mem_cons_self)⟩
  exact (last.qualified name.qualifier).prints

/-- The text of a literal is that of its word. -/
theorem Literal.text_eq (value : Literal) : value.text = value.word.lexeme := by
  cases value with
  | boolean value => cases value <;> rfl
  | _ => rfl

/-- A negative literal is printed as its sign and the number without the sign, if that can be
written. -/
theorem Literal.text_of_isNegative {value : Literal} (negative : value.isNegative = true)
    (written : value.unsignedWord.Written) : value.text = "-" ++ value.unsignedWord.lexeme := by
  cases value with
  | integer value =>
    have below : value.toInt < 0 := by simpa [isNegative, Int64.lt_iff_toInt_lt] using negative
    exact repr_of_neg below
  | real value =>
    obtain (⟨other, positive, finite, written, _⟩ | ⟨_, keyword, _⟩) | ⟨integer, _⟩ := written
    · have number : IsReal (Layout.query.text (-value)).toList :=
        (congrArg String.toList written) ▸ Layout.isReal_text positive finite
      have finite := magnitude_ne_of_isFinite (Layout.isFinite_of_isReal number)
      rw [value.magnitude_neg] at finite
      exact Layout.text_of_isNegative negative finite
    · cases keyword
    · cases integer
  | _ => cases negative

/-- A literal is printed in front of whatever ends every word. -/
theorem Literal.prints (value : Literal) : Prints Apart value.text value.words := by
  unfold Literal.words
  split
  · next negative =>
    have kind : value.unsignedWord.kind = .integer ∨ value.unsignedWord.kind = .real := by
      cases value with
      | integer => exact .inl rfl
      | real => exact .inr rfl
      | _ => cases negative
    intro written rest apart
    obtain ⟨minus, number⟩ := List.forall_mem_cons.mp written
    have number := number _ List.mem_cons_self
    have head : (value.unsignedWord.lexeme.toList ++ rest).head? ≠ some '-' := by
      obtain (spelled | ⟨_, keyword, _⟩) | oversized := number
      · obtain ⟨first, text, written, -, sign, -⟩ := spelled.head
        rw [written]
        intro same
        obtain ⟨isMinus, -⟩ := sign (Option.some.inj same)
        rcases kind with kind | kind <;> rw [kind] at isMinus <;> cases isMinus
      · rcases kind with kind | kind <;> rw [kind] at keyword <;> cases keyword
      · obtain ⟨first, text, written, digit⟩ := oversized.head
        rw [written]
        intro same
        rw [Option.some.inj same] at digit
        exact absurd digit (by decide)
    have laid := Laid.word minus head (.word number (apart.fits _) .rest)
    rw [Literal.text_of_isNegative negative number, String.toList_append]
    exact laid
  · rw [value.text_eq]
    exact Prints.closed value.word

/-! ### Pieces of text -/

section

variable {follows : List Char → Prop} {text next : String} {words others : List Word}

/-- Reserved words and a text behind them, with a space in front of each, trail. -/
theorem Prints.clause {front : String} (keywords : List Keyword)
    (spelled : front.toList = (keywords.flatMap fun keyword => ' ' :: keyword.spelling.toList) ++
      [' ']) (h : Prints Apart text words) :
    Trails (front ++ text) (keywords.map Keyword.word ++ words) := by
  have same : front = String.ofList (keywords.flatMap fun keyword =>
      ' ' :: keyword.spelling.toList) ++ " " := by
    rw [← String.toList_inj, spelled, String.toList_append, String.toList_ofList]
    rfl
  rw [same, String.append_assoc]
  exact (trails_keywords keywords String.toList_ofList).append h.trails

/-- A clause that is missing is printed as nothing. -/
theorem Trails.clauseText {front : String} (keyword : Keyword)
    (spelled : front.toList = ' ' :: keyword.spelling.toList ++ [' ']) {text? : Option String}
    {words? : Option (List Word)} (h : Option.Rel (Prints Apart) text? words?) :
    Trails (clauseText front text?) (clauseWords keyword words?) := by
  cases h with
  | none => exact .empty
  | some h => exact h.clause [keyword] (by simpa using spelled)

/-- Texts with commas between them are printed as rows of words with commas between them. -/
theorem prints_commaSeparated {texts : List String} {rows : List (List Word)}
    (h : List.Forall₂ (Prints Apart) texts rows) :
    Prints Apart (commaSeparated texts) (separated .comma rows) := by
  induction h with
  | nil => exact .empty
  | cons first rest ih =>
    cases rest with
    | nil => exact first
    | @cons text row texts rows _ _ =>
      have comma : Trails "," [TokenKind.comma.word] :=
        ⟨Prints.closed TokenKind.comma.word, fun _ _ => startsAmong_cons _ (by decide)⟩
      have shape (front behind : String) :
          front ++ ", " ++ behind = front ++ ("," ++ (" " ++ behind)) := by
        have split : ", " = "," ++ " " := by decide
        rw [split, String.append_assoc, String.append_assoc]
      rw [commaSeparated, shape]
      exact first.before (comma.append ih.trails)

/-- A list clause with no elements is printed as nothing. -/
theorem Trails.listClauseText {front : String} (keywords : List Keyword)
    (spelled : front.toList = (keywords.flatMap fun keyword => ' ' :: keyword.spelling.toList) ++
      [' ']) {texts : List String} {rows : List (List Word)}
    (h : List.Forall₂ (Prints Apart) texts rows) :
    Trails (listClauseText front texts) (listClauseWords (keywords.map Keyword.word) rows) := by
  cases h with
  | nil => exact .empty
  | cons first rest => exact (prints_commaSeparated (.cons first rest)).clause keywords spelled

/-- A reserved word with a space behind it may be missing. -/
theorem leads_wordIf {front : String} (keyword : Keyword)
    (spelled : front.toList = keyword.spelling.toList ++ [' ']) (present : Bool) :
    Leads (if present then front else "") (wordIf keyword present) := by
  cases present with
  | false => exact .empty
  | true => exact leads_keywords [keyword] (by simpa using spelled)

/-- A number of rows is printed. -/
theorem prints_count (count : Nat) : Prints Apart count.repr [countWord count] :=
  Prints.closed (countWord count)

/-- The number of rows to skip trails. -/
theorem trails_offsetText (offset : Option UInt64) :
    Trails (offsetText offset) (offsetWords offset) := by
  refine Trails.clauseText .OFFSET (by decide) ?_
  cases offset with
  | none => exact .none
  | some count => exact .some (prints_count _)

/-- A name that is given trails. -/
theorem trails_aliasText (alias? : Option Identifier) :
    Trails (aliasText alias?) (aliasWords alias?) := by
  refine Trails.clauseText .AS (by decide) ?_
  cases alias? with
  | none => exact .none
  | some name => exact .some name.prints_apart

/-- The word of a predicate trails with what it is about. -/
theorem Prints.predicate (h : Prints Apart text words) (negated : Bool) (keyword : Keyword) :
    Trails (predicateText negated keyword.spelling ++ text)
      (wordIf .NOT negated ++ keyword.word :: words) := by
  cases negated with
  | false => exact h.clause [keyword] (by simp [predicateText])
  | true => exact h.clause [.NOT, keyword] (by simp [predicateText]; rfl)

/-- An operator is printed between two spaces. -/
theorem Prints.operator (h : Prints Apart text words) (word : Word) :
    Trails (" " ++ (word.lexeme ++ (" " ++ text))) (word :: words) :=
  ((Prints.closed word).before h.trails).trails

/-- Parentheses are printed at once behind a name. -/
theorem Prints.arguments {name : String} {word : Word} (h : Prints EndsName name [word])
    (inside : Prints Apart text words) :
    Prints Apart (name ++ Adql.parenthesized text) (word :: enclosed words) := by
  refine h.append inside.parenthesized fun rest _ => ?_
  rw [Adql.parenthesized, String.append_assoc, String.toList_append]
  exact startsAmong_cons _ (by decide)

/-- A prefix operator is printed in front of its operand. -/
theorem Prints.prefixText (h : Prints Apart text words) (op : UnaryOp) :
    Prints Apart (prefixText op text) (op.token.word :: words) := by
  have minus : Prints TokenKind.minus.Fits "-" [TokenKind.minus.word] :=
    Prints.word TokenKind.minus.word
  cases op with
  | not => exact h.behind (leads_keywords [.NOT] rfl)
  | plus => exact h.behind (Prints.word TokenKind.plus.word)
  | bitNot => exact h.behind (Prints.word TokenKind.bitNot.word)
  | neg =>
    unfold Adql.prefixText
    simp only
    split
    · have split : "- " = "-" ++ " " := by decide
      rw [split, String.append_assoc]
      refine minus.append h.trails.prints fun rest _ => ?_
      rw [String.toList_append]
      exact fun h => absurd (Option.some.inj h) (by decide)
    · next unsigned =>
      refine minus.append h fun rest apart => ?_
      cases written : text.toList with
      | nil => exact apart.fits .minus
      | cons c tail =>
        rw [written] at unsigned
        exact unsigned

/-- The text of a data type is printed. -/
theorem DataType.prints (target : DataType) : Prints Apart target.text target.words := by
  have lengths (keyword : Keyword) (length : Option UInt32) :
      Prints Apart (withLength keyword.spelling length) (lengthWords keyword length) := by
    cases length with
    | none => exact Prints.closed keyword.word
    | some length =>
      have name : Prints EndsName keyword.spelling [keyword.word] := Prints.word keyword.word
      have shape : withLength keyword.spelling (some length) =
          keyword.spelling ++ Adql.parenthesized length.toNat.repr := by
        simp only [withLength, Adql.parenthesized, String.append_assoc]
        rfl
      rw [shape]
      exact name.arguments (prints_count _)
  cases target with
  | char length => exact lengths .CHAR length
  | varchar length => exact lengths .VARCHAR length
  | double =>
    have second : Trails " PRECISION" [Keyword.PRECISION.word] :=
      trails_keywords [.PRECISION] (by decide)
    have split : DataType.double.text = "DOUBLE" ++ " PRECISION" := by decide
    rw [split]
    exact (Prints.closed Keyword.DOUBLE.word).before second
  | smallint => exact Prints.closed Keyword.SMALLINT.word
  | integer => exact Prints.closed Keyword.INTEGER.word
  | bigint => exact Prints.closed Keyword.BIGINT.word
  | real => exact Prints.closed Keyword.REAL.word
  | timestamp => exact Prints.closed Keyword.TIMESTAMP.word
  | point => exact Prints.closed ⟨.identifier, "POINT"⟩
  | circle => exact Prints.closed ⟨.identifier, "CIRCLE"⟩
  | polygon => exact Prints.closed ⟨.identifier, "POLYGON"⟩

/-- Names are printed. -/
theorem prints_names (names : List Identifier) :
    List.Forall₂ (Prints Apart) (names.map Identifier.text) (names.map fun name => [name.word]) := by
  induction names with
  | nil => exact .nil
  | cons name rest ih => exact .cons name.prints_apart ih

/-- The words of a join are printed in front of its right side. -/
theorem JoinKind.leads (kind : JoinKind) : Leads (kind.spelling ++ " ") kind.words := by
  cases kind with
  | inner => exact leads_keywords [.JOIN] (by decide)
  | left => exact leads_keywords [.LEFT, .OUTER, .JOIN] (by decide)
  | right => exact leads_keywords [.RIGHT, .OUTER, .JOIN] (by decide)
  | full => exact leads_keywords [.FULL, .OUTER, .JOIN] (by decide)
  | cross => exact leads_keywords [.CROSS, .JOIN] (by decide)

/-- The number of rows to keep is printed in front of the select list. -/
theorem leads_top (top : Option UInt64) :
    Leads (match top with | none => "" | some count => "TOP " ++ count.toNat.repr ++ " ")
      (clauseWords .TOP (top.map fun count => [countWord count.toNat])) := by
  cases top with
  | none => exact .empty
  | some count =>
    have number : Leads (count.toNat.repr ++ " ") [countWord count.toNat] :=
      (prints_count count.toNat).append leads_space fun _ _ => startsAmong_cons _ (by decide)
    have keyword : Leads "TOP " [Keyword.TOP.word] := leads_keywords [.TOP] (by decide)
    change Leads ("TOP " ++ count.toNat.repr ++ " ") _
    rw [String.append_assoc]
    exact number.behind keyword

end

/-! ### Trees -/

mutual

/-- The text of an expression is cut into its words. -/
theorem Expr.prints : (expr : Expr) → Prints Apart expr.text (expr.words true)
  | .literal value => value.prints
  | .column name => name.prints.mono fun _ apart => apart.endsName
  | .wildcard qualifier => by
    have star : Continues Apart "*" [TokenKind.star.word] :=
      ⟨Prints.closed TokenKind.star.word, fun _ => ⟨'*', [], rfl, rfl⟩⟩
    exact (star.qualified qualifier).prints
  | .binary left op right => by
    have spelled : op.spelling = op.token.word.lexeme := by cases op <;> rfl
    rw [Expr.text, spelled, String.append_assoc, String.append_assoc, String.append_assoc]
    exact (left.prints.parenthesizedIf _).before ((right.prints.parenthesizedIf _).operator _)
  | .unary op operand => (operand.prints.parenthesizedIf _).prefixText op
  | .call name arguments distinct =>
    name.prints.arguments <|
      (prints_commaSeparated (Expr.printsList arguments)).behind
        (leads_wordIf .DISTINCT (by decide) distinct)
  | .geometry function arguments => by
    have name : Prints EndsName function.spelling [⟨.identifier, function.spelling⟩] :=
      Prints.word ⟨.identifier, function.spelling⟩
    exact name.arguments (prints_commaSeparated (Expr.printsList arguments))
  | .isNull operand negated => by
    have tail : Trails (if negated then " IS NOT NULL" else " IS NULL")
        (Keyword.IS.word :: (wordIf .NOT negated ++ [Keyword.NULL.word])) := by
      cases negated with
      | false => exact trails_keywords [.IS, .NULL] (by decide)
      | true => exact trails_keywords [.IS, .NOT, .NULL] (by decide)
    exact (operand.prints.parenthesizedIf _).before tail
  | .between operand low high negated => by
    rw [Expr.text, String.append_assoc, String.append_assoc, String.append_assoc]
    have upper : Trails (" AND " ++ operandText high high.text (predicateLevel + 1)) _ :=
      (high.prints.parenthesizedIf _).clause [.AND] (by decide)
    exact (operand.prints.parenthesizedIf _).before
      (((low.prints.parenthesizedIf _).before upper).predicate negated .BETWEEN)
  | .inList operand items negated => by
    rw [Expr.text, String.append_assoc]
    have list := (prints_commaSeparated (Expr.printsList items)).parenthesized
    exact (operand.prints.parenthesizedIf _).before (list.predicate negated .IN)
  | .inQuery operand query negated => by
    rw [Expr.text, String.append_assoc]
    exact (operand.prints.parenthesizedIf _).before
      (query.prints.parenthesized.predicate negated .IN)
  | .like operand pattern escape negated caseInsensitive => by
    have spelled : (if caseInsensitive then "ILIKE" else "LIKE") =
        (likeKeyword caseInsensitive).spelling := by cases caseInsensitive <;> rfl
    rw [Expr.text, spelled, String.append_assoc, String.append_assoc]
    have tail := (pattern.prints.parenthesizedIf (pattern.looserThan (predicateLevel + 1))).before
      (Expr.trailsEscape escape)
    exact (operand.prints.parenthesizedIf _).before
      (tail.predicate negated (likeKeyword caseInsensitive))
  | .exists query => query.prints.parenthesized.behind (leads_keywords [.EXISTS] (by decide))
  | .subquery query => query.prints.parenthesized
  | .case subject branches otherwise => by
    have last : Trails " END" [Keyword.END.word] := trails_keywords [.END] (by decide)
    rw [Expr.text, String.append_assoc, String.append_assoc, String.append_assoc]
    exact (Prints.closed Keyword.CASE.word).before <| (Expr.trailsSubject subject).append <|
      (Branch.trailsList branches).append <|
        (Trails.clauseText .ELSE (by decide) (Expr.printsOption otherwise)).append last
  | .cast operand target => by
    have name : Prints EndsName "CAST" [Keyword.CAST.word] := Prints.word Keyword.CAST.word
    rw [Expr.text, String.append_assoc]
    exact name.arguments (operand.prints.before (target.prints.clause [.AS] (by decide)))
  | .paren inner => inner.prints.parenthesized

/-- The texts of expressions are cut into their words. -/
theorem Expr.printsList : (exprs : List Expr) →
    List.Forall₂ (Prints Apart) (Expr.textList exprs) (Expr.wordsList true exprs)
  | [] => .nil
  | expr :: rest => .cons expr.prints (Expr.printsList rest)

/-- The text of an expression that may be missing is cut into its words. -/
theorem Expr.printsOption : (expr? : Option Expr) →
    Option.Rel (Prints Apart) (Expr.textOption expr?) (Expr.wordsOption true expr?)
  | none => .none
  | some expr => .some expr.prints

/-- The subject of a case distinction trails. -/
theorem Expr.trailsSubject : (expr? : Option Expr) →
    Trails (clauseText " " (Expr.textOption expr?)) ((Expr.wordsOption true expr?).getD [])
  | none => .empty
  | some expr => expr.prints.trails

/-- An escape clause trails. -/
theorem Expr.trailsEscape : (expr? : Option Expr) →
    Trails (Expr.escapeText expr?) (Expr.escapeWords true expr?)
  | none => .empty
  | some expr => (expr.prints.parenthesizedIf _).clause [.ESCAPE] (by decide)

/-- The branches of a case distinction trail. -/
theorem Branch.trailsList : (branches : List Branch) →
    Trails (Branch.textList branches) (Branch.wordsList true branches)
  | [] => .empty
  | branch :: rest => branch.trails.append (Branch.trailsList rest)

/-- A branch of a case distinction trails. -/
theorem Branch.trails : (branch : Branch) → Trails branch.text (branch.words true)
  | ⟨condition, result⟩ => by
    rw [Branch.text, String.append_assoc, String.append_assoc]
    exact (condition.prints.before (result.prints.clause [.THEN] (by decide))).clause [.WHEN]
      (by decide)

/-- The text of a sort key is cut into its words. -/
theorem SortKey.prints : (key : SortKey) → Prints Apart key.text (key.words true)
  | ⟨expr, .ascending⟩ => expr.prints.before .empty
  | ⟨expr, .descending⟩ => expr.prints.before (trails_keywords [.DESC] (by decide))

/-- The texts of sort keys are cut into their words. -/
theorem SortKey.printsList : (keys : List SortKey) →
    List.Forall₂ (Prints Apart) (SortKey.textList keys) (SortKey.wordsList true keys)
  | [] => .nil
  | key :: rest => .cons key.prints (SortKey.printsList rest)

/-- The text of a select item is cut into its words. -/
theorem SelectItem.prints : (item : SelectItem) → Prints Apart item.text (item.words true)
  | ⟨expr, alias?⟩ => expr.prints.before (trails_aliasText alias?)

/-- The texts of select items are cut into their words. -/
theorem SelectItem.printsList : (items : List SelectItem) →
    List.Forall₂ (Prints Apart) (SelectItem.textList items) (SelectItem.wordsList true items)
  | [] => .nil
  | item :: rest => .cons item.prints (SelectItem.printsList rest)

/-- What matches the rows of a join trails. -/
theorem JoinConstraint.trails : (constraint : JoinConstraint) →
    Trails constraint.text (constraint.words true)
  | .on condition => condition.prints.clause [.ON] (by decide)
  | .using columns =>
    (prints_commaSeparated (prints_names columns)).parenthesized.clause [.USING] (by decide)
  | .none => .empty

/-- The text of a table is cut into its words. -/
theorem TableRef.prints : (table : TableRef) → Prints Apart table.text (table.words true)
  | .table name alias? =>
    (name.prints.mono fun _ apart => apart.endsName).before (trails_aliasText alias?)
  | .subquery query name => by
    rw [TableRef.text, String.append_assoc]
    exact query.prints.parenthesized.before (name.prints_apart.clause [.AS] (by decide))
  | .join left kind natural right constraint => by
    have front : Leads (if natural then "NATURAL " else "") (wordIf .NATURAL natural) :=
      leads_wordIf .NATURAL (by decide) natural
    have tail := (right.prints.parenthesizedIf right.isJoin).before constraint.trails
    have whole := left.prints.before ((tail.behind kind.leads).behind front).trails
    simp only [TableRef.text, String.append_assoc] at whole ⊢
    exact whole
  | .nested inner => inner.prints.parenthesized

/-- The texts of tables are cut into their words. -/
theorem TableRef.printsList : (tables : List TableRef) →
    List.Forall₂ (Prints Apart) (TableRef.textList tables) (TableRef.wordsList true tables)
  | [] => .nil
  | table :: rest => .cons table.prints (TableRef.printsList rest)

/-- The text of a specification is cut into its words. -/
theorem QuerySpec.prints : (spec : QuerySpec) → Prints Apart spec.text (spec.words true)
  | ⟨distinct, top, items, tables, condition, groups, having, keys, offset⟩ => by
    have select : Leads "SELECT " [Keyword.SELECT.word] := leads_keywords [.SELECT] (by decide)
    have repetitions : Leads (if distinct then "DISTINCT " else "") (wordIf .DISTINCT distinct) :=
      leads_wordIf .DISTINCT (by decide) distinct
    have sources : Trails (" FROM " ++ commaSeparated (TableRef.textList tables)) _ :=
      (prints_commaSeparated (TableRef.printsList tables)).clause [.FROM] (by decide)
    have rows : Trails (clauseText " WHERE " (Expr.textOption condition)) _ :=
      Trails.clauseText .WHERE (by decide) (Expr.printsOption condition)
    have grouping : Trails (listClauseText " GROUP BY " (Expr.textList groups)) _ :=
      Trails.listClauseText [.GROUP, .BY] (by decide) (Expr.printsList groups)
    have selection : Trails (clauseText " HAVING " (Expr.textOption having)) _ :=
      Trails.clauseText .HAVING (by decide) (Expr.printsOption having)
    have order : Trails (listClauseText " ORDER BY " (SortKey.textList keys)) _ :=
      Trails.listClauseText [.ORDER, .BY] (by decide) (SortKey.printsList keys)
    have clauses := sources.append <| rows.append <| grouping.append <| selection.append <|
      order.append (trails_offsetText offset)
    have list := prints_commaSeparated (SelectItem.printsList items)
    have whole := (((list.before clauses).behind (leads_top top)).behind repetitions).behind select
    -- the equations of the text, unlike its definition, split on the number of rows to keep
    unfold QuerySpec.text
    simp only [String.append_assoc] at whole ⊢
    exact whole

/-- The text of a query body is cut into its words. -/
theorem QueryBody.prints : (body : QueryBody) → Prints Apart body.text (body.words true)
  | .spec spec => spec.prints
  | .setOperation op all left right => by
    have operator : Trails (" " ++ op.spelling) [op.keyword.word] := by
      cases op with
      | union => exact trails_keywords [.UNION] (by decide)
      | except => exact trails_keywords [.EXCEPT] (by decide)
      | intersect => exact trails_keywords [.INTERSECT] (by decide)
    have repetitions : Trails (if all then " ALL" else "") (wordIf .ALL all) := by
      cases all with
      | false => exact .empty
      | true => exact trails_keywords [.ALL] (by decide)
    have spaced : (if all then " ALL " else " ") = (if all then " ALL" else "") ++ " " := by
      cases all <;> decide
    have operand := (right.prints.parenthesizedIf (right.looserThan (op.level + 1))).trails
    have whole := (left.prints.parenthesizedIf (left.looserThan op.level)).before
      (operator.append (repetitions.append operand))
    rw [QueryBody.text, spaced]
    simp only [String.append_assoc] at whole ⊢
    exact whole
  | .nested query => query.prints.parenthesized

/-- The text of a named query is cut into its words. -/
theorem CommonTable.prints : (table : CommonTable) → Prints Apart table.text (table.words true)
  | ⟨name, columns, query⟩ => by
    have subquery : Trails (" AS " ++ Adql.parenthesized query.text) _ :=
      query.prints.parenthesized.clause [.AS] (by decide)
    cases columns with
    | nil =>
      simp only [CommonTable.text, CommonTable.words, List.isEmpty_nil, ↓reduceIte,
        String.append_empty, List.nil_append]
      rw [String.append_assoc]
      exact name.prints_apart.before subquery
    | cons first rest =>
      have names := prints_commaSeparated (prints_names (first :: rest))
      simp only [CommonTable.text, CommonTable.words, List.isEmpty_cons, Bool.false_eq_true,
        ↓reduceIte]
      rw [String.append_assoc]
      exact (name.prints.arguments names).before subquery

/-- The texts of named queries are cut into their words. -/
theorem CommonTable.printsList : (tables : List CommonTable) →
    List.Forall₂ (Prints Apart) (CommonTable.textList tables) (CommonTable.wordsList true tables)
  | [] => .nil
  | table :: rest => .cons table.prints (CommonTable.printsList rest)

/-- The text of a query is cut into its words. -/
theorem Query.prints : (query : Query) → Prints Apart query.text (query.words true)
  | ⟨commonTables, body, keys, offset⟩ => by
    have order : Trails (listClauseText " ORDER BY " (SortKey.textList keys)) _ :=
      Trails.listClauseText [.ORDER, .BY] (by decide) (SortKey.printsList keys)
    have tail := body.prints.before (order.append (trails_offsetText offset))
    cases commonTables with
    | nil =>
      simp only [Query.text, CommonTable.textList, String.empty_append, String.append_assoc]
      exact tail
    | cons first rest =>
      have word : Leads "WITH " [Keyword.WITH.word] := leads_keywords [.WITH] (by decide)
      have tables := prints_commaSeparated (CommonTable.printsList (first :: rest))
      have whole := (tables.before tail.trails).behind word
      simp only [Query.text, CommonTable.textList, String.append_assoc] at whole ⊢
      exact whole

end

end Adql
