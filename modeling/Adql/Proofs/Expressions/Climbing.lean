import Adql.Proofs.Expressions.Runs
import Adql.Proofs.RoundTrip.Parses
import Adql.Proofs.RoundTrip.Sources

/-!
# Precedence climbing

Columns with binary operators between them are grouped by their levels and associativities.  A tree
over them is grouped (`OperatorTree.Grouped`) if each right operand is a run of operators that may
stand there, and if no operator on the right side of a left operand would have gone on with the
operator behind it.  Under every precedence table, a row of columns and operators has exactly one
grouped tree, and it is the one that is parsed (`parses_grouped`).

That a grouped tree is parsed goes by induction on the tree: a left operand is a run of operators
that has got so far, and a right operand is a run of its own (`OperatorTree.reads`).  That there is a
grouped tree is seen by putting one operator behind another into a tree (`OperatorTree.insert`), and
that there is only one since a parse has only one result.
-/

namespace Adql

open Adql.Parser Adql.Grammar

/-! ### Levels -/

namespace PrecedenceTable

variable (table : PrecedenceTable) (op : BinaryOp)

/-- A right operand may bind as tight as the operator, or has to bind tighter. -/
theorem binaryLevel_le_rightLevel : table.binaryLevel op ≤ table.rightLevel op := by
  unfold binaryLevel rightLevel
  cases table.binding? op with
  | none => exact Nat.le_refl _
  | some binding =>
    obtain ⟨level, associativity⟩ := binding
    cases associativity with
    | left => exact Nat.le_succ level
    | right => exact Nat.le_refl level

/-- A right operand has to bind at most one level tighter than the operator. -/
theorem rightLevel_le : table.rightLevel op ≤ table.binaryLevel op + 1 := by
  unfold binaryLevel rightLevel
  cases table.binding? op with
  | none => exact Nat.le_succ _
  | some binding =>
    obtain ⟨level, associativity⟩ := binding
    cases associativity with
    | left => exact Nat.le_refl _
    | right => exact Nat.le_succ level

end PrecedenceTable

/-! ### Rows -/

/-- An operand or an operator. -/
inductive OperatorItem
  | operand (name : QualifiedName)
  | operator (op : BinaryOp)
  deriving DecidableEq

namespace OperatorItem

/-- Is the operand a valid name, or is the operator part of the table? -/
def Valid (table : PrecedenceTable) : OperatorItem → Prop
  | operand name => name.Valid
  | operator op => (table.binding? op).isSome = true

/-- Do the words spell the item?  Reserved words may be written in upper or lower case. -/
def Spells : OperatorItem → List Word → Prop
  | operand name, words => words = name.words
  | operator op, words => ∃ word, words = [word] ∧ word.kind = op.token

end OperatorItem

/-- Do the words spell the items, one behind the other? -/
inductive SpellsRow : List OperatorItem → List Word → Prop
  | nil : SpellsRow [] []
  | cons {item items words rest} : OperatorItem.Spells item words → SpellsRow items rest →
      SpellsRow (item :: items) (words ++ rest)

/-- The words of two rows, one behind the other, are the words of the first row and the words of the
second one. -/
theorem SpellsRow.split {first second : List OperatorItem} {words : List Word}
    (h : SpellsRow (first ++ second) words) :
    ∃ before after, words = before ++ after ∧ SpellsRow first before ∧ SpellsRow second after := by
  induction first generalizing words with
  | nil => exact ⟨[], words, rfl, .nil, h⟩
  | cons item first ih =>
    cases h with
    | @cons _ _ words rest spelled others =>
      obtain ⟨before, after, rfl, hfirst, hsecond⟩ := ih others
      exact ⟨words ++ before, after, (List.append_assoc ..).symm, .cons spelled hfirst, hsecond⟩

/-- The words of valid items are sound. -/
theorem SpellsRow.sound {table : PrecedenceTable} {items : List OperatorItem} {words : List Word}
    (h : SpellsRow items words) (valid : ∀ item ∈ items, item.Valid table) :
    ∀ word ∈ words, word.Sound := by
  induction h with
  | nil => exact fun _ h => nomatch h
  | @cons item items words rest spelled _ ih =>
    obtain ⟨first, others⟩ := List.forall_mem_cons.mp valid
    refine List.forall_mem_append.mpr ⟨?_, ih others⟩
    cases item with
    | operand name =>
      obtain rfl : words = name.words := spelled
      exact fun word hword => (QualifiedName.Valid.spelled first word hword).sound
    | operator op =>
      obtain ⟨⟨kind, lexeme⟩, rfl, rfl⟩ := spelled
      refine List.forall_mem_singleton.mpr ?_
      cases op with
      | or | and => exact Word.sound_keyword _ lexeme
      | _ => exact Word.sound_of_none nofun rfl rfl

/-- Columns with binary operators between them. -/
structure OperatorRow where
  /-- The first column. -/
  first : QualifiedName
  /-- The other columns, each with the operator in front of it. -/
  others : List (BinaryOp × QualifiedName)

/-- The operands and operators of the row from left to right. -/
def OperatorRow.items (row : OperatorRow) : List OperatorItem :=
  .operand row.first :: row.others.flatMap fun (op, name) => [.operator op, .operand name]

/-! ### Trees -/

/-- A tree of binary operators over columns. -/
inductive OperatorTree
  | operand (name : QualifiedName)
  | binary (left : OperatorTree) (op : BinaryOp) (right : OperatorTree)
  deriving DecidableEq

namespace OperatorTree

/-- The tree as an expression. -/
def expr : OperatorTree → Expr
  | operand name => .column name
  | binary left op right => .binary left.expr op right.expr

/-- The operands and operators of the tree from left to right. -/
def inOrder : OperatorTree → List OperatorItem
  | operand name => [.operand name]
  | binary left op right => left.inOrder ++ .operator op :: right.inOrder

/-- The outermost operator, if there is one. -/
def root? : OperatorTree → Option BinaryOp
  | operand _ => none
  | binary _ op _ => some op

/-- The outermost operator, the outermost one of its right operand, and so on. -/
def rightSpine : OperatorTree → List BinaryOp
  | operand _ => []
  | binary _ op right => op :: right.rightSpine

/-- Is the tree grouped as the table asks for?  A right operand binds as tight as its operator allows,
and no operator on the right spine of a left operand allows a right operand that binds as loosely as
the operator behind it. -/
def Grouped (table : PrecedenceTable) : OperatorTree → Prop
  | operand _ => True
  | binary left op right => left.Grouped table ∧ right.Grouped table ∧
      (∀ p ∈ right.root?, table.rightLevel op ≤ table.binaryLevel p) ∧
      ∀ p ∈ left.rightSpine, table.binaryLevel op < table.rightLevel p

/-- Different trees are different expressions. -/
theorem expr_injective {first second : OperatorTree} (h : first.expr = second.expr) :
    first = second := by
  induction first generalizing second with
  | operand name =>
    cases second with
    | operand name' => rw [Expr.column.inj h]
    | binary => cases h
  | binary left op right ihLeft ihRight =>
    cases second with
    | operand => cases h
    | binary left' op' right' =>
      obtain ⟨hleft, rfl, hright⟩ := Expr.binary.inj h
      rw [ihLeft hleft, ihRight hright]

variable {table : PrecedenceTable}

/-- In a grouped tree, what is looser than the right operand of the outermost operator allows is
looser than those of all operators on the right spine allow. -/
theorem Grouped.lt_rightSpine {tree : OperatorTree} (grouped : tree.Grouped table) {level : Nat}
    (h : ∀ p ∈ tree.root?, level < table.rightLevel p) :
    ∀ p ∈ tree.rightSpine, level < table.rightLevel p := by
  induction tree with
  | operand name => exact fun _ h => nomatch h
  | binary left op right _ ih =>
    have root := h op rfl
    refine List.forall_mem_cons.mpr ⟨root, ih grouped.2.1 fun p hp => ?_⟩
    have tighter := grouped.2.2.1 p hp
    have := table.binaryLevel_le_rightLevel p
    omega

/-! ### Grouped trees are parsed -/

/-- What stands behind the tree ends every run of operators that is open there. -/
structure EndsAt (table : PrecedenceTable) (tree : OperatorTree) (behind : List Word) : Prop where
  /-- No name goes on. -/
  dot : firstKind behind ≠ .dot
  /-- No name becomes a call. -/
  leftParen : firstKind behind ≠ .leftParen
  /-- No right operand on the right spine goes on. -/
  spine : ∀ p ∈ tree.rightSpine, Stops (table.rightLevel p) behind table

/-- A grouped tree is read as a run of operators at the level of its outermost operator, or looser,
if rules may nest deep enough. -/
theorem reads (tree : OperatorTree) (grouped : tree.Grouped table)
    (valid : ∀ item ∈ tree.inOrder, item.Valid table) :
    ∃ depth, ∀ allowance, depth ≤ allowance → ∀ level words behind,
      SpellsRow tree.inOrder words → (∀ p ∈ tree.root?, level ≤ table.binaryLevel p) →
      tree.EndsAt table behind → ∃ first middle,
        Reads (Grammar.operand true (apply true allowance)) (words ++ behind) first middle table ∧
        Repeats table (operatorStep (apply true allowance) level) first middle tree.expr
          behind := by
  induction tree with
  | operand name =>
    refine ⟨0, fun allowance _ level words behind spelled _ ends => ?_⟩
    cases spelled with
    | cons named none =>
      cases none
      obtain rfl := named
      rw [List.append_nil]
      exact ⟨_, _, reads_column (valid _ List.mem_cons_self) ends.dot ends.leftParen, .refl _ _⟩
  | binary left op right ihLeft ihRight =>
    obtain ⟨groupedLeft, groupedRight, tighter, closed⟩ := grouped
    obtain ⟨validLeft, validRest⟩ := List.forall_mem_append.mp valid
    obtain ⟨present, validRight⟩ := List.forall_mem_cons.mp validRest
    obtain ⟨depthLeft, readsLeft⟩ := ihLeft groupedLeft validLeft
    obtain ⟨depthRight, readsRight⟩ := ihRight groupedRight validRight
    obtain ⟨binding, found⟩ := Option.isSome_iff_exists.mp present
    have level_eq : table.binaryLevel op = binding.level := by
      simp [PrecedenceTable.binaryLevel, found]
    have right_eq : table.rightLevel op = binding.rightOperandLevel := by
      simp [PrecedenceTable.rightLevel, found]
    refine ⟨max depthLeft (depthRight + 1), fun allowance enough level words behind spelled above
      ends => ?_⟩
    obtain ⟨less, rfl⟩ : ∃ less, allowance = less + 1 := ⟨allowance - 1, by omega⟩
    obtain ⟨wordsLeft, wordsRest, rfl, spelledLeft, spelledRest⟩ := spelled.split
    cases spelledRest with
    | @cons _ _ operator wordsRight spelledOp spelledRight =>
      obtain ⟨word, rfl, hword⟩ := spelledOp
      -- the right operand is a run of its own, which ends where the whole tree ends
      have readRight : Reads (apply true (less + 1) (.operators binding.rightOperandLevel))
          (wordsRight ++ behind) right.expr behind table := by
        obtain ⟨first, middle, hfirst, steps⟩ := readsRight less (by omega) (table.rightLevel op)
          wordsRight behind spelledRight tighter ⟨ends.dot, ends.leftParen, fun p hp =>
            ends.spine p (List.mem_cons_of_mem op hp)⟩
        rw [right_eq] at steps
        exact reads_operators hfirst steps (right_eq ▸ ends.spine op List.mem_cons_self)
      have tight : level ≤ binding.level := level_eq ▸ above op rfl
      have step : Reads (operatorStep (apply true (less + 1)) level left.expr)
          (word :: (wordsRight ++ behind)) (.more (.binary left.expr op right.expr)) behind table :=
        reads_binaryStep found hword tight readRight
      -- the left operand ends in front of the operator
      have endsLeft : left.EndsAt table (word :: (wordsRight ++ behind)) := by
        refine ⟨?_, ?_, fun p hp => .of_binary found hword (level_eq ▸ closed p hp)⟩
        all_goals
          rw [firstKind_cons, hword]
          cases op <;> nofun
      have aboveLeft : ∀ p ∈ left.root?, level ≤ table.binaryLevel p := by
        intro p hp
        have onSpine : p ∈ left.rightSpine := by
          cases left with
          | operand => cases hp
          | binary _ q _ =>
            cases hp
            exact List.mem_cons_self
        have before := closed p onSpine
        have := table.rightLevel_le p
        omega
      obtain ⟨first, middle, hfirst, steps⟩ := readsLeft (less + 1) (by omega) level wordsLeft
        (word :: (wordsRight ++ behind)) spelledLeft aboveLeft endsLeft
      refine ⟨first, middle, ?_, steps.trans (.word_cons step (.refl _ _))⟩
      simpa using hfirst

/-! ### Every row has a grouped tree -/

/-- The tree with one more operator and its right operand behind it. -/
def insert (table : PrecedenceTable) (op : BinaryOp) (name : QualifiedName) :
    OperatorTree → OperatorTree
  | operand first => binary (operand first) op (operand name)
  | binary left p right =>
    if table.binaryLevel op < table.rightLevel p then
      binary (binary left p right) op (operand name)
    else binary left p (right.insert table op name)

/-- An operator that is put behind a tree is the last one in the order of the tree. -/
theorem inOrder_insert (op : BinaryOp) (name : QualifiedName) (tree : OperatorTree) :
    (tree.insert table op name).inOrder = tree.inOrder ++ [.operator op, .operand name] := by
  induction tree with
  | operand first => rfl
  | binary left p right _ ih =>
    unfold insert
    split
    · rfl
    · rw [inOrder, ih, inOrder, List.append_assoc, List.cons_append]

/-- The outermost operator behind an insertion is the one before, or the new one. -/
theorem root?_insert {op : BinaryOp} {name : QualifiedName} {tree : OperatorTree} {p : BinaryOp}
    (h : p ∈ (tree.insert table op name).root?) : p ∈ tree.root? ∨ p = op := by
  cases tree with
  | operand first =>
    cases h
    exact .inr rfl
  | binary left q right =>
    unfold insert at h
    split at h
    · cases h
      exact .inr rfl
    · exact .inl h

/-- A grouped tree is still grouped with one more operator behind it. -/
theorem Grouped.insert {tree : OperatorTree} (grouped : tree.Grouped table) (op : BinaryOp)
    (name : QualifiedName) : (tree.insert table op name).Grouped table := by
  induction tree with
  | operand first => exact ⟨trivial, trivial, (fun _ h => nomatch h), (fun _ h => nomatch h)⟩
  | binary left p right _ ih =>
    unfold OperatorTree.insert
    split
    · next loose =>
      refine ⟨grouped, trivial, (fun _ h => nomatch h), grouped.lt_rightSpine fun q hq => ?_⟩
      cases hq
      exact loose
    · next tight =>
      obtain ⟨groupedLeft, groupedRight, tighter, closed⟩ := grouped
      refine ⟨groupedLeft, ih groupedRight, fun q hq => ?_, closed⟩
      rcases root?_insert hq with before | rfl
      · exact tighter q before
      · exact Nat.le_of_not_lt tight

/-- The tree of a row: its operators are put into it one behind the other. -/
def ofRow (table : PrecedenceTable) (row : OperatorRow) : OperatorTree :=
  row.others.foldl (fun tree (op, name) => tree.insert table op name) (operand row.first)

/-- Operators that are put into a tree stand behind it in their order. -/
theorem inOrder_foldl_insert (others : List (BinaryOp × QualifiedName)) (tree : OperatorTree) :
    (others.foldl (fun tree (op, name) => tree.insert table op name) tree).inOrder =
      tree.inOrder ++ others.flatMap fun (op, name) => [.operator op, .operand name] := by
  induction others generalizing tree with
  | nil => simp
  | cons other others ih => rw [List.foldl_cons, ih, inOrder_insert]; simp

/-- The tree of a row has the operands and operators of the row. -/
theorem inOrder_ofRow (row : OperatorRow) : (ofRow table row).inOrder = row.items :=
  inOrder_foldl_insert row.others (operand row.first)

/-- The tree of a row is grouped. -/
theorem grouped_ofRow (row : OperatorRow) : (ofRow table row).Grouped table := by
  have fold (others : List (BinaryOp × QualifiedName)) (tree : OperatorTree)
      (grouped : tree.Grouped table) :
      (others.foldl (fun tree (op, name) => tree.insert table op name) tree).Grouped table := by
    induction others generalizing tree with
    | nil => exact grouped
    | cons other others ih => exact ih _ (grouped.insert other.1 other.2)
  exact fold row.others (operand row.first) trivial

end OperatorTree

/-! ### Parses -/

open OperatorTree in
/-- Columns with binary operators of a precedence table between them are parsed to the end as a tree
of these columns and operators in their order, whose operators are grouped as the table asks for.
It is the only tree of them that is grouped so. -/
theorem parses_grouped (table : PrecedenceTable) (row : OperatorRow) (tokens : List Token)
    (words : List Word) (valid : ∀ item ∈ row.items, item.Valid table)
    (spelled : SpellsRow row.items words) (written : tokens.map Token.word = words ++ [endWord]) :
    ∃ tree : OperatorTree, ParsesAs table tokens tree.expr ∧ tree.inOrder = row.items ∧
      tree.Grouped table ∧
      ∀ other : OperatorTree, other.inOrder = row.items → other.Grouped table → other = tree := by
  have sound : ∀ word ∈ words, word.Sound := spelled.sound valid
  have ends (tree : OperatorTree) : tree.EndsAt table [] := ⟨nofun, nofun, fun _ _ => stops_nil _⟩
  -- a grouped tree of the row is read at the loosest level
  have reads (tree : OperatorTree) (order : tree.inOrder = row.items)
      (grouped : tree.Grouped table) : ∃ depth, ∀ allowance, depth ≤ allowance →
        Reads (apply true allowance .expression) words tree.expr [] table := by
    obtain ⟨depth, h⟩ := tree.reads grouped (order ▸ valid)
    refine ⟨depth + 2, fun allowance enough => ?_⟩
    obtain ⟨less, rfl⟩ : ∃ less, allowance = less + 1 + 1 := ⟨allowance - 2, by omega⟩
    obtain ⟨first, middle, hfirst, steps⟩ := h less (by omega) 0 words [] (order ▸ spelled)
      (fun _ _ => Nat.zero_le _) (ends tree)
    rw [List.append_nil] at hfirst
    exact .apply (reads_operators hfirst steps (stops_nil 0))
  obtain ⟨depth, parsed⟩ := reads _ (inOrder_ofRow row) (grouped_ofRow row)
  refine ⟨ofRow table row, .of_reads written sound parsed, inOrder_ofRow row, grouped_ofRow row,
    fun other order grouped => expr_injective ?_⟩
  obtain ⟨depth', parsed'⟩ := reads other order grouped
  exact ((parsed' (max depth depth') (Nat.le_max_right ..)).unique
    (parsed _ (Nat.le_max_left ..))).1

/-- A table with operators of both associativities on one level. -/
def mixedTable : PrecedenceTable where
  binary := [⟨.add, 1, .left⟩, ⟨.sub, 1, .right⟩]
  notLevel := 3
  predicateLevel := 4
  unaryLevel := 11

/-- A column with a regular name. -/
def plainName (name : String) : QualifiedName :=
  ⟨[], .regular name⟩

/-- The row `a - b + c`. -/
def mixedRow : OperatorRow :=
  ⟨plainName "a", [(.sub, plainName "b"), (.add, plainName "c")]⟩

/-- The words of `a - b + c`. -/
def mixedWords : List Word :=
  (plainName "a").words ++ ([TokenKind.minus.word] ++ ((plainName "b").words ++
    ([TokenKind.plus.word] ++ ((plainName "c").words ++ []))))

open OperatorTree in
/-- Behind a right-associative operator, a left-associative one on the same level groups to the
right. -/
theorem parses_grouped_mixed :
    ParsesAs mixedTable ((mixedWords ++ [endWord]).map Word.token)
      (binary (operand (plainName "a")) .sub
        (binary (operand (plainName "b")) .add (operand (plainName "c")))).expr := by
  have regular : ∀ name ∈ ["a", "b", "c"], (plainName name).Valid := by decide +kernel
  have valid : ∀ item ∈ mixedRow.items, item.Valid mixedTable := by
    have a := regular "a" (by simp)
    have b := regular "b" (by simp)
    have c := regular "c" (by simp)
    exact List.forall_mem_cons.mpr ⟨a, List.forall_mem_cons.mpr ⟨rfl, List.forall_mem_cons.mpr
      ⟨b, List.forall_mem_cons.mpr ⟨rfl, List.forall_mem_singleton.mpr c⟩⟩⟩⟩
  have name (name : String) :
      OperatorItem.Spells (.operand (plainName name)) (plainName name).words := rfl
  have mark (op : BinaryOp) : OperatorItem.Spells (.operator op) [op.token.word] := ⟨_, rfl, rfl⟩
  have spelled : SpellsRow mixedRow.items mixedWords :=
    .cons (name "a") <| .cons (mark .sub) <| .cons (name "b") <| .cons (mark .add) <|
      .cons (name "c") .nil
  obtain ⟨tree, parsed, _, _, only⟩ := parses_grouped mixedTable mixedRow
    ((mixedWords ++ [endWord]).map Word.token) mixedWords valid spelled
    (by simp [Function.comp_def])
  rw [only (binary (operand (plainName "a")) .sub
    (binary (operand (plainName "b")) .add (operand (plainName "c")))) rfl
    (by simp [Grouped, root?, rightSpine, mixedTable, PrecedenceTable.binaryLevel,
      PrecedenceTable.rightLevel, PrecedenceTable.binding?, Binding.rightOperandLevel])]
  exact parsed

end Adql
