import Adql.Proofs.Expressions.Calls
import Adql.Proofs.Leaves.Accounts
import Adql.Proofs.RoundTrip.Printing

/-!
# Printed text is lexed to what was printed

Any tree is printed as a text that the lexer accepts, if its leaves can be written at all
(`Leaf.Writable`): no piece of the text is swallowed by a comment or glued to its neighbour, and the
names, numbers and strings of the text are the leaves of the tree, each of them once and in their
order.  This asks nothing of the shape of the tree, so it is no matter whether a parser has built it.

The text of a negative number is a sign and a number without one, so its token stands for the number
without the sign (`Leaf.unsigned`).  The rows of words of a tree are put together as its leaves are
(`Spells`), and the lexer cuts the text of the tree into its words.
-/

namespace Adql

open Adql.Decimal

/-! ### Leaves that can be written -/

/-- The double without its sign. -/
def Double.absolute (x : Double) : Double :=
  if x.isNegative then -x else x

/-- The double without its sign has no sign. -/
theorem Double.isNegative_absolute (x : Double) : x.absolute.isNegative = false := by
  unfold absolute
  split
  · next negative => rw [x.isNegative_neg, negative]; rfl
  · next positive => exact Bool.eq_false_iff.mpr positive

/-- A double is finite whatever its sign is. -/
theorem Double.isFinite_absolute (x : Double) : x.absolute.isFinite = x.isFinite := by
  unfold absolute
  split
  · rw [isFinite, isFinite, exponent_neg]
  · rfl

/-- The leaf without the sign, which is a token of its own. -/
def Leaf.unsigned : Leaf → Leaf
  | .integer value => .integer value.natAbs
  | .real value => .real value.absolute
  | leaf => leaf

/-- Can the leaf be written?  The most negative integer has a magnitude that is no literal, and only
finite numbers have digits. -/
def Leaf.Writable : Leaf → Prop
  | .name identifier => identifier.Valid
  | .integer value => value.natAbs ≤ maxInteger
  | .real value => value.isFinite = true
  | .geometry _ | .string _ => True

instance (leaf : Leaf) : Decidable leaf.Writable :=
  match leaf with
  | .name identifier => inferInstanceAs (Decidable identifier.Valid)
  | .integer value => inferInstanceAs (Decidable (value.natAbs ≤ maxInteger))
  | .real value => inferInstanceAs (Decidable (value.isFinite = true))
  | .geometry _ | .string _ => .isTrue trivial

/-- If the leaf is a real number, its decimal text is read as the same number. -/
def Leaf.Rereads : Leaf → Prop
  | .real value => readReal? (Layout.query.text value) = some value
  | _ => True

instance (leaf : Leaf) : Decidable leaf.Rereads :=
  match leaf with
  | .real value => inferInstanceAs (Decidable (readReal? (Layout.query.text value) = some value))
  | .name _ | .geometry _ | .integer _ | .string _ => .isTrue trivial

/-! ### Words for leaves -/

/-- A number that is no larger than an integer literal may be stands for itself. -/
theorem standsFor_countWord {count : Nat} (bound : count ≤ maxInteger) :
    (countWord count).token.StandsFor (.integer count) := by
  have exactly : (Int64.ofInt count).toInt = count :=
    Int64.toInt_ofInt_of_le (by simp) (by simp only [maxInteger] at bound; omega)
  have read := integer?_countWord (show 0 ≤ (Int64.ofInt count).toInt by omega)
  rw [exactly, Int.toNat_natCast] at read
  exact exactly ▸ Token.StandsFor.integer rfl read

/-- The word is written for the leaf, without its sign. -/
inductive Word.Holds : Word → Leaf → Prop
  | name (name : Identifier) : Holds name.word (.name name)
  | geometry (function : Geometry) :
      Holds ⟨.identifier, function.spelling⟩ (.geometry function.spelling)
  | integer (value : Int) : Holds (countWord value.natAbs) (.integer value)
  | real (value : Double) : Holds ⟨.real, Layout.query.text value.absolute⟩ (.real value)
  | string (value : String) : Holds (Literal.string value).word (.string value)

/-- If the leaf can be written, the word can, and it stands for the leaf without its sign. -/
theorem Word.Holds.stands {word : Word} {leaf : Leaf} (h : word.Holds leaf)
    (writable : leaf.Writable) (rereads : leaf.unsigned.Rereads) :
    word.Spelled ∧ word.token.StandsFor leaf.unsigned := by
  cases h with
  | name name =>
    have valid : name.Valid := writable
    exact ⟨valid.spelled, .name valid.identifier?⟩
  | geometry function =>
    refine ⟨function.isName_spelling, ?_⟩
    rw [show Leaf.unsigned (.geometry function.spelling) = .geometry function.spelling.toUpper from
      congrArg Leaf.geometry function.toUpper_spelling.symm]
    exact .geometry rfl
  | integer value => exact ⟨⟨_, writable, rfl⟩, standsFor_countWord writable⟩
  | real value =>
    have finite : value.absolute.isFinite = true := value.isFinite_absolute.trans writable
    have read : readReal? (Layout.query.text value.absolute) = some value.absolute := rereads
    refine ⟨⟨_, value.isNegative_absolute, finite, rfl, read⟩, .real rfl ?_⟩
    rw [Token.real?, show (Word.token ⟨.real, Layout.query.text value.absolute⟩).lexeme =
      Layout.query.text value.absolute from rfl, read, Option.filter_some, if_pos finite]
  | string value =>
    refine ⟨⟨value, rfl⟩, ?_⟩
    have stands : (Literal.string value).word.token.StandsFor (.string (Text.unquoted '\''
      (Text.quoted '\'' value))) := .string rfl
    rwa [Text.unquoted_quoted] at stands

/-! ### Rows of words -/

/-- The words are put together as the leaves are: each of them is written for a leaf, or for none. -/
inductive Spells : List Word → List Leaf → Prop
  | nil : Spells [] []
  | mark {word : Word} : word.Legible → word.kind.isLeaf = false → Spells [word] []
  | leaf {word : Word} {leaf : Leaf} : word.Holds leaf → Spells [word] [leaf]
  | append {words words' : List Word} {leaves leaves' : List Leaf} : Spells words leaves →
      Spells words' leaves' → Spells (words ++ words') (leaves ++ leaves')

/-- The same with a list of rows of words. -/
inductive SpellsAll : List (List Word) → List Leaf → Prop
  | nil : SpellsAll [] []
  | cons {words rows leaves others} : Spells words leaves → SpellsAll rows others →
      SpellsAll (words :: rows) (leaves ++ others)

namespace Spells

variable {words words' : List Word} {leaves leaves' : List Leaf}

/-- If the leaves can be written, the words can be read, and those among them that are names, numbers
and strings stand for the leaves without their signs. -/
theorem stand (h : Spells words leaves)
    (writable : ∀ leaf ∈ leaves, leaf.Writable ∧ leaf.unsigned.Rereads) :
    (∀ word ∈ words, word.Legible) ∧
      List.Forall₂ Token.StandsFor ((words.map Word.token).filter Token.isLeaf)
        (leaves.map Leaf.unsigned) := by
  induction h with
  | nil => exact ⟨List.forall_mem_nil _, .nil⟩
  | mark legible none => exact ⟨List.forall_mem_singleton.mpr legible, Token.leaves_nil none⟩
  | leaf holds =>
    obtain ⟨bound, rereads⟩ := List.forall_mem_singleton.mp writable
    obtain ⟨spelled, stands⟩ := holds.stands bound rereads
    exact ⟨List.forall_mem_singleton.mpr spelled.legible, stands.leaves⟩
  | append _ _ ih ih' =>
    obtain ⟨first, second⟩ := List.forall_mem_append.mp writable
    obtain ⟨legible, stand⟩ := ih first
    obtain ⟨legible', stand'⟩ := ih' second
    refine ⟨List.forall_mem_append.mpr ⟨legible, legible'⟩, ?_⟩
    rw [List.map_append, List.filter_append, List.map_append]
    exact List.rel_append stand stand'

/-- A word that can be written and is no name, number or string stands for no leaf. -/
theorem plain {word : Word} (spelled : word.Spelled) (none : word.kind.isLeaf = false) :
    Spells [word] [] :=
  .mark spelled.legible none

/-- A reserved word stands for no leaf. -/
theorem keyword (keyword : Keyword) : Spells [keyword.word] [] :=
  .plain keyword.spelled_word rfl

/-- A reserved word that is there or not stands for no leaf. -/
theorem wordIf (keyword : Keyword) (present : Bool) : Spells (wordIf keyword present) [] := by
  cases present with
  | false => exact .nil
  | true => exact .keyword keyword

/-- Words in front that stand for no leaf change nothing. -/
theorem front (h' : Spells words' []) (h : Spells words leaves) : Spells (words' ++ words) leaves :=
  h'.append h

/-- Words behind that stand for no leaf change nothing. -/
theorem back (h : Spells words leaves) (h' : Spells words' []) : Spells (words ++ words') leaves := by
  rw [← List.append_nil leaves]
  exact h.append h'

/-- A word in front that stands for no leaf changes nothing. -/
theorem behind {word : Word} (h' : Spells [word] []) (h : Spells words leaves) :
    Spells (word :: words) leaves :=
  h'.append h

/-- A reserved word in front changes nothing. -/
theorem clause (keyword : Keyword) (h : Spells words leaves) : Spells (keyword.word :: words) leaves :=
  (Spells.keyword keyword).append h

/-- Parentheses around words for leaves change nothing. -/
theorem enclosed (h : Spells words leaves) : Spells (enclosed words) leaves :=
  .behind (.plain rfl rfl) (h.back (.plain rfl rfl))

/-- Parentheses that may be missing change nothing. -/
theorem enclosedIf (needed : Bool) (h : Spells words leaves) :
    Spells (enclosedIf needed words) leaves := by
  cases needed with
  | false => exact h
  | true => exact h.enclosed

end Spells

namespace SpellsAll

variable {rows : List (List Word)} {leaves : List Leaf}

/-- Rows with commas between them stand for the leaves of the rows. -/
theorem separated (h : SpellsAll rows leaves) : Spells (separated .comma rows) leaves := by
  induction h with
  | nil => exact .nil
  | @cons words rows leaves others first rest ih =>
    cases rest with
    | nil => rwa [List.append_nil]
    | cons second rest => exact first.append (.behind (.plain rfl rfl) ih)

/-- The clause that rows make up stands for the leaves of the rows. -/
theorem clause {front : List Word} (hfront : Spells front []) (h : SpellsAll rows leaves) :
    Spells (listClauseWords front rows) leaves := by
  have list := h.separated
  cases h with
  | nil => exact .nil
  | cons first rest => exact hfront.front list

end SpellsAll

/-! ### Names -/

/-- The word of a name stands for the name. -/
theorem Identifier.spells (name : Identifier) : Spells [name.word] [.name name] :=
  .leaf (.name name)

/-- The word of the name of a function stands for the name, unless the name is reserved. -/
theorem Identifier.spells_called (name : Identifier) : Spells [name.word] name.calledLeaves := by
  unfold calledLeaves
  split
  · next reserved =>
    obtain ⟨plain, found⟩ : name.quoted = false ∧ (Keyword.ofWord? name.value).isSome = true := by
      simpa [isReserved] using reserved
    obtain ⟨keyword, found⟩ := Option.isSome_iff_exists.mp found
    have word : name.word = ⟨.keyword keyword, name.value⟩ := by simp [Identifier.word, plain, found]
    rw [word]
    exact .mark (.inr ⟨keyword, rfl, found⟩) rfl
  · exact name.spells

/-- The words of qualifying names stand for the names. -/
theorem spells_qualifier (qualifier : List Identifier) :
    Spells (qualifierWords qualifier) (qualifier.map .name) := by
  induction qualifier with
  | nil => exact .nil
  | cons part rest ih => exact part.spells.append (.behind (.plain rfl rfl) ih)

/-- The words of a qualified name stand for its names. -/
theorem QualifiedName.spells (name : QualifiedName) : Spells name.words name.leaves :=
  (spells_qualifier name.qualifier).append name.name.spells

/-- Rows of single names stand for the names. -/
theorem spells_names (names : List Identifier) :
    SpellsAll (names.map fun name => [name.word]) (names.map .name) := by
  induction names with
  | nil => exact .nil
  | cons name rest ih => exact .cons name.spells ih

/-- The words of a name that may be given stand for the name. -/
theorem spells_alias (alias? : Option Identifier) :
    Spells (aliasWords alias?) (Identifier.leavesOption alias?) := by
  cases alias? with
  | none => exact .nil
  | some name => exact name.spells.clause .AS

/-! ### Numbers and types -/

/-- The word of a magnitude stands for it. -/
theorem spells_integer (value : Int) : Spells [countWord value.natAbs] [.integer value] :=
  .leaf (.integer value)

/-- The word of a number of rows or of a length stands for the number. -/
theorem spells_count (count : Nat) : Spells [countWord count] [.integer count] :=
  spells_integer count

/-- A clause with a number of rows stands for the number. -/
theorem spells_rowCount (keyword : Keyword) (count? : Option UInt64) :
    Spells (clauseWords keyword (count?.map fun count => [countWord count.toNat]))
      (Leaf.count (count?.map UInt64.toNat)) := by
  cases count? with
  | none => exact .nil
  | some count => exact (spells_count count.toNat).clause keyword

/-- The word of the name of a geometry function or type stands for the name. -/
theorem Geometry.spells (function : Geometry) :
    Spells [⟨.identifier, function.spelling⟩] [.geometry function.spelling] :=
  .leaf (.geometry function)

/-- The words of a type stand for its length or for the name of what it describes. -/
theorem DataType.spells (target : DataType) : Spells target.words target.leaves := by
  have lengths (keyword : Keyword) (length : Option UInt32) :
      Spells (lengthWords keyword length) (Leaf.count (length.map UInt32.toNat)) := by
    cases length with
    | none => exact .keyword keyword
    | some length => exact (spells_count length.toNat).enclosed.clause keyword
  cases target with
  | char length => exact lengths .CHAR length
  | varchar length => exact lengths .VARCHAR length
  | double => exact (Spells.keyword .PRECISION).clause .DOUBLE
  | point => exact Geometry.spells .point
  | circle => exact Geometry.spells .circle
  | polygon => exact Geometry.spells .polygon
  | smallint => exact .keyword .SMALLINT
  | integer => exact .keyword .INTEGER
  | bigint => exact .keyword .BIGINT
  | real => exact .keyword .REAL
  | timestamp => exact .keyword .TIMESTAMP

/-- The word of the absolute value of a real number stands for it. -/
theorem spells_real (value : Double) :
    Spells [⟨.real, Layout.query.text value.absolute⟩] [.real value] :=
  .leaf (.real value)

/-- The words of a literal stand for its absolute value or its text. -/
theorem Literal.spells (value : Literal) : Spells value.words value.leaves := by
  unfold words
  cases value with
  | integer value =>
    have absolute := spells_integer value.toInt
    split
    · exact .behind (.plain rfl rfl) absolute
    · next nonnegative =>
      have nonnegative : 0 ≤ value.toInt := by
        simpa [isNegative, Int64.lt_iff_toInt_lt] using nonnegative
      have same : (Literal.integer value).word = countWord value.toInt.natAbs := by
        rw [word, repr_toInt nonnegative, show value.toInt.toNat = value.toInt.natAbs by omega]
        rfl
      exact same ▸ absolute
  | real value =>
    have absolute := spells_real value
    unfold Double.absolute at absolute
    split
    · next negative =>
      rw [if_pos (show value.isNegative = true from negative)] at absolute
      exact .behind (.plain rfl rfl) absolute
    · next positive =>
      rwa [if_neg (show ¬value.isNegative = true from positive)] at absolute
  | string value => exact .leaf (.string value)
  | boolean value => cases value <;> exact .plain rfl rfl
  | null => exact .keyword .NULL

/-! ### Trees -/

/-- The word of an operator stands for no leaf. -/
theorem BinaryOp.spells (op : BinaryOp) : Spells [op.token.word] [] := by
  cases op <;> exact .plain rfl rfl

/-- The word of a prefix operator stands for no leaf. -/
theorem UnaryOp.spells (op : UnaryOp) : Spells [op.token.word] [] := by
  cases op <;> exact .plain rfl rfl

/-- The words of a join stand for no leaf. -/
theorem JoinKind.spells (kind : JoinKind) : Spells kind.words [] := by
  cases kind <;>
    first
    | exact .keyword .JOIN
    | exact (Spells.keyword .JOIN).clause _
    | exact ((Spells.keyword .JOIN).clause .OUTER).clause _

mutual

/-- The words of an expression stand for its leaves. -/
theorem Expr.spells : (expr : Expr) → Spells (expr.words true) expr.leaves
  | .literal value => value.spells
  | .column name => name.spells
  | .wildcard qualifier => (spells_qualifier qualifier).back (.plain rfl rfl)
  | .binary left op right =>
    (left.spells.enclosedIf _).append (op.spells.behind (right.spells.enclosedIf _))
  | .unary op operand => op.spells.behind (operand.spells.enclosedIf _)
  | .call name arguments distinct =>
    name.spells_called.append
      (.enclosed ((Spells.wordIf .DISTINCT distinct).front (Expr.spellsList arguments).separated))
  | .geometry function arguments =>
    function.spells.append (Expr.spellsList arguments).separated.enclosed
  | .isNull operand negated =>
    (operand.spells.enclosedIf _).back <|
      .clause .IS ((Spells.wordIf .NOT negated).front (.keyword .NULL))
  | .between operand low high negated =>
    (operand.spells.enclosedIf _).append <| (Spells.wordIf .NOT negated).front <|
      .clause .BETWEEN <| (low.spells.enclosedIf _).append <|
        (high.spells.enclosedIf _).clause .AND
  | .inList operand items negated =>
    (operand.spells.enclosedIf _).append <| (Spells.wordIf .NOT negated).front <|
      (Expr.spellsList items).separated.enclosed.clause .IN
  | .inQuery operand query negated =>
    (operand.spells.enclosedIf _).append <| (Spells.wordIf .NOT negated).front <|
      query.spells.enclosed.clause .IN
  | .like operand pattern escape negated _ =>
    (operand.spells.enclosedIf _).append <| (Spells.wordIf .NOT negated).front <|
      .clause _ <| (pattern.spells.enclosedIf _).append (Expr.spellsEscape escape)
  | .exists query => query.spells.enclosed.clause .EXISTS
  | .subquery query => query.spells.enclosed
  | .case subject branches otherwise =>
    .clause .CASE <| (Expr.spellsSubject subject).append <| (Branch.spellsList branches).append <|
      (Expr.spellsClause .ELSE otherwise).back (.keyword .END)
  | .cast operand target =>
    .clause .CAST (operand.spells.append (target.spells.clause .AS)).enclosed
  | .paren inner => inner.spells.enclosed

/-- The words of expressions stand for their leaves. -/
theorem Expr.spellsList : (exprs : List Expr) →
    SpellsAll (Expr.wordsList true exprs) (Expr.leavesList exprs)
  | [] => .nil
  | expr :: rest => .cons expr.spells (Expr.spellsList rest)

/-- The words of an expression that may be missing stand for its leaves. -/
theorem Expr.spellsSubject : (expr? : Option Expr) →
    Spells ((Expr.wordsOption true expr?).getD []) (Expr.leavesOption expr?)
  | none => .nil
  | some expr => expr.spells

/-- The words of a clause with an expression stand for the leaves of the expression. -/
theorem Expr.spellsClause (keyword : Keyword) : (expr? : Option Expr) →
    Spells (clauseWords keyword (Expr.wordsOption true expr?)) (Expr.leavesOption expr?)
  | none => .nil
  | some expr => expr.spells.clause keyword

/-- The words of an escape clause stand for the leaves of the expression in it. -/
theorem Expr.spellsEscape : (expr? : Option Expr) →
    Spells (Expr.escapeWords true expr?) (Expr.leavesOption expr?)
  | none => .nil
  | some expr => (expr.spells.enclosedIf _).clause .ESCAPE

/-- The words of the branches of a case distinction stand for their leaves. -/
theorem Branch.spellsList : (branches : List Branch) →
    Spells (Branch.wordsList true branches) (Branch.leavesList branches)
  | [] => .nil
  | branch :: rest => branch.spells.append (Branch.spellsList rest)

/-- The words of a branch of a case distinction stand for its leaves. -/
theorem Branch.spells : (branch : Branch) → Spells (branch.words true) branch.leaves
  | ⟨condition, result⟩ => .clause .WHEN (condition.spells.append (result.spells.clause .THEN))

/-- The words of a sort key stand for its leaves. -/
theorem SortKey.spells : (key : SortKey) → Spells (key.words true) key.leaves
  | ⟨expr, _⟩ => expr.spells.back (.wordIf .DESC _)

/-- The words of sort keys stand for their leaves. -/
theorem SortKey.spellsList : (keys : List SortKey) →
    SpellsAll (SortKey.wordsList true keys) (SortKey.leavesList keys)
  | [] => .nil
  | key :: rest => .cons key.spells (SortKey.spellsList rest)

/-- The words of a select item stand for its leaves. -/
theorem SelectItem.spells : (item : SelectItem) → Spells (item.words true) item.leaves
  | ⟨expr, alias?⟩ => expr.spells.append (spells_alias alias?)

/-- The words of select items stand for their leaves. -/
theorem SelectItem.spellsList : (items : List SelectItem) →
    SpellsAll (SelectItem.wordsList true items) (SelectItem.leavesList items)
  | [] => .nil
  | item :: rest => .cons item.spells (SelectItem.spellsList rest)

/-- The words of the constraint of a join stand for its leaves. -/
theorem JoinConstraint.spells : (constraint : JoinConstraint) →
    Spells (constraint.words true) constraint.leaves
  | .on condition => condition.spells.clause .ON
  | .using columns => (spells_names columns).separated.enclosed.clause .USING
  | .none => .nil

/-- The words of a table stand for its leaves. -/
theorem TableRef.spells : (table : TableRef) → Spells (table.words true) table.leaves
  | .table name alias? => name.spells.append (spells_alias alias?)
  | .subquery query name => query.spells.enclosed.append (name.spells.clause .AS)
  | .join left kind natural right constraint =>
    left.spells.append <| (Spells.wordIf .NATURAL natural).front <| kind.spells.front <|
      (right.spells.enclosedIf _).append constraint.spells
  | .nested inner => inner.spells.enclosed

/-- The words of tables stand for their leaves. -/
theorem TableRef.spellsList : (tables : List TableRef) →
    SpellsAll (TableRef.wordsList true tables) (TableRef.leavesList tables)
  | [] => .nil
  | table :: rest => .cons table.spells (TableRef.spellsList rest)

/-- The words of a specification stand for its leaves. -/
theorem QuerySpec.spells : (spec : QuerySpec) → Spells (spec.words true) spec.leaves
  | ⟨distinct, top, items, tables, condition, groups, having, keys, offset⟩ =>
    .clause .SELECT <| (Spells.wordIf .DISTINCT distinct).front <|
      (spells_rowCount .TOP top).append <| (SelectItem.spellsList items).separated.append <|
        .clause .FROM <| (TableRef.spellsList tables).separated.append <|
          (Expr.spellsClause .WHERE condition).append <|
            ((Expr.spellsList groups).clause ((Spells.keyword .BY).clause .GROUP)).append <|
              (Expr.spellsClause .HAVING having).append <|
                ((SortKey.spellsList keys).clause ((Spells.keyword .BY).clause .ORDER)).append <|
                  spells_rowCount .OFFSET offset

/-- The words of a query body stand for its leaves. -/
theorem QueryBody.spells : (body : QueryBody) → Spells (body.words true) body.leaves
  | .spec spec => spec.spells
  | .setOperation op all left right =>
    (left.spells.enclosedIf _).append <| .clause op.keyword <|
      (Spells.wordIf .ALL all).front (right.spells.enclosedIf _)
  | .nested query => query.spells.enclosed

/-- The words of a named query stand for its leaves. -/
theorem CommonTable.spells : (table : CommonTable) → Spells (table.words true) table.leaves
  | ⟨name, columns, query⟩ => by
    have list : Spells (if columns.isEmpty then []
        else enclosed (separated .comma (columns.map fun column => [column.word])))
        (columns.map .name) := by
      cases columns with
      | nil => exact .nil
      | cons first rest => exact (spells_names (first :: rest)).separated.enclosed
    exact name.spells.append (list.append (query.spells.enclosed.clause .AS))

/-- The words of named queries stand for their leaves. -/
theorem CommonTable.spellsList : (tables : List CommonTable) →
    SpellsAll (CommonTable.wordsList true tables) (CommonTable.leavesList tables)
  | [] => .nil
  | table :: rest => .cons table.spells (CommonTable.spellsList rest)

/-- The words of a query stand for its leaves. -/
theorem Query.spells : (query : Query) → Spells (query.words true) query.leaves
  | ⟨commonTables, body, keys, offset⟩ =>
    ((CommonTable.spellsList commonTables).clause (.keyword .WITH)).append <|
      body.spells.append <|
        ((SortKey.spellsList keys).clause ((Spells.keyword .BY).clause .ORDER)).append <|
          spells_rowCount .OFFSET offset

end

/-! ### Texts -/

/-- A token stands for the leaves that the token of its word stands for. -/
theorem Token.StandsFor.of_word {token : Token} {leaf : Leaf}
    (h : token.word.token.StandsFor leaf) : token.StandsFor leaf := by
  cases h with
  | name named => exact .name named
  | geometry kind => exact .geometry kind
  | integer kind read => exact .integer kind read
  | real kind read => exact .real kind read
  | string kind => exact .string kind

/-- The text of a query whose leaves can be written is cut into the words of the query, and its
names, numbers and strings stand for the leaves, without the signs of numbers.  The decimal text of a
real number is taken to be read as the same number. -/
theorem Query.tokenize_text {query : Query} (writable : ∀ leaf ∈ query.leaves, leaf.Writable)
    (rereads : ∀ leaf ∈ query.leaves, leaf.unsigned.Rereads) :
    ∃ tokens, Adql.tokenize query.text = .ok tokens ∧
      tokens.map Token.word = query.words true ++ [endWord] ∧
      List.Forall₂ Token.StandsFor (tokens.filter Token.isLeaf)
        (query.leaves.map Leaf.unsigned) := by
  obtain ⟨legible, stand⟩ :=
    query.spells.stand fun leaf mem => ⟨writable leaf mem, rereads leaf mem⟩
  obtain ⟨tokens, cut, words⟩ := query.prints.tokenize_legible legible
  refine ⟨tokens, cut, words, ?_⟩
  have alike : Token.isLeaf ∘ Word.token ∘ Token.word = Token.isLeaf := rfl
  have noLeaf : [endWord.token].filter Token.isLeaf = [] := rfl
  have same : (tokens.filter Token.isLeaf).map (Word.token ∘ Token.word) =
      ((query.words true).map Word.token).filter Token.isLeaf := by
    have whole := congrArg (List.filter Token.isLeaf ∘ List.map Word.token) words
    simp only [Function.comp_apply, List.map_append, List.filter_append, List.map_cons,
      List.map_nil, noLeaf, List.append_nil] at whole
    rw [← whole, List.map_map, List.filter_map, alike]
  rw [← same, List.forall₂_map_left_iff] at stand
  exact stand.imp fun _ _ => .of_word

/-- A query of a shape that no text has: there are signs before signs, a slash before a star, lists
without elements and a wildcard as an operand. -/
def signedQuery : Query :=
  let five : Expr := .literal (.integer (-5))
  let half : Expr := .literal (.real ⟨0xBFE0000000000000⟩)
  let items : List SelectItem := [
    ⟨.unary .neg (.unary .neg five), none⟩,
    ⟨.binary half .div (.wildcard []), some (.delimited "a\"b")⟩,
    ⟨.call (.regular "count") [.call (.regular "f") [] false] true, none⟩,
    ⟨.geometry .point [.literal (.string "--'/*")], none⟩]
  let condition : Expr := .inList (.unary .not (.wildcard [.regular "t"])) [] true
  ⟨[], .spec ⟨false, some 3, items, [.table ⟨[.regular "s"], .regular "t"⟩ none], some condition, [],
    none, [], none⟩, [], some 4⟩

/-- The odd query is printed with each of its signs. -/
example : signedQuery.text = "SELECT TOP 3 - - -5, -0.5 / * AS \"a\"\"b\", count(DISTINCT f()), " ++
    "POINT('--''/*') FROM s.t WHERE (NOT t.*) NOT IN () OFFSET 4" := by
  decide +kernel

/-- Signs, comments in strings and reserved names are no obstacle. -/
theorem Query.tokenize_text_signed : ∃ tokens, Adql.tokenize signedQuery.text = .ok tokens ∧
    tokens.map Token.word = signedQuery.words true ++ [endWord] ∧
    List.Forall₂ Token.StandsFor (tokens.filter Token.isLeaf)
      (signedQuery.leaves.map Leaf.unsigned) :=
  Query.tokenize_text (by decide +kernel) (by decide +kernel)

end Adql
