import Adql.Proofs.Decimal.Written
import Adql.Proofs.Readable.Leaves
import Adql.Proofs.Reduction.Leaves

/-!
# Folding keeps trees readable

Folding puts literals in the place of expressions.  A literal leaves no run of operators open and ends
in no pattern, so wherever an expression may stand, the folded expression may stand as well
(`Expr.Replaces`, `Expr.rebuilt_replaces`).  Negative literals are no exception: where the printer puts
one in parentheses, it is read as an operand.

So a folded tree is readable if the tree is and the leaves of the folded tree can be written
(`Query.Readable.reduced`), by induction over readable trees.  Only the literals that are new have to be
looked at, and they are all leaves of the folded tree.
-/

namespace Adql

open Folding Adql.Decimal Adql.Grammar

/-! ### Literals -/

/-- A real number that is finite and not negative is written as a word that is read again. -/
theorem Literal.real_sound {value : Double} (positive : value.isNegative = false)
    (finite : value.isFinite = true) : (Literal.real value).word.Spelled ∧
      (Literal.real value).word.token.literal? = some (.real value) := by
  have read := readReal?_text .query finite
  refine ⟨⟨value, positive, finite, rfl, read⟩, ?_⟩
  have found : (Literal.real value).word.token.real? = some value := by
    rw [Token.real?, show (Literal.real value).word.token.lexeme = Layout.query.text value from rfl,
      read, Option.filter_some, if_pos finite]
  exact congrArg (Option.map Literal.real) found

/-- A literal is readable if its leaf can be written. -/
theorem Literal.readable_of_writable {value : Literal}
    (h : ∀ leaf ∈ value.leaves, leaf.Writable) : value.Readable := by
  cases value with
  | integer value =>
    have bound : value.toInt.natAbs ≤ maxInteger := h _ List.mem_cons_self
    by_cases sign : 0 ≤ value.toInt
    · exact .unsigned (integer_sound sign).1 (integer_sound sign).2
    · have small : value.toInt.natAbs < 2 ^ 63 := by
        simp only [maxInteger] at bound
        omega
      have opposite : (-value).toInt = value.toInt.natAbs := by
        rw [Int64.toInt_neg, Int.bmod_eq_of_le] <;> omega
      obtain ⟨spelled, again⟩ := integer_sound (show 0 ≤ (-value).toInt by omega)
      refine .signed ?_ spelled again
      have negative : (Literal.integer value).isNegative = true := by
        simpa [isNegative, Int64.lt_iff_toInt_lt] using sign
      rw [words, if_pos negative, word, opposite]
      rfl
  | real value =>
    have finite : value.isFinite = true := h _ List.mem_cons_self
    by_cases negative : value.isNegative = true
    · have positive : (-value).isNegative = false := by rw [value.isNegative_neg, negative]; rfl
      have finite : (-value).isFinite = true := by
        rwa [Double.isFinite, Double.exponent_neg]
      obtain ⟨spelled, again⟩ := real_sound positive finite
      refine .signed ?_ spelled again
      rw [words, if_pos (show (Literal.real value).isNegative = true from negative)]
      rfl
    · obtain ⟨spelled, again⟩ := real_sound (Bool.eq_false_iff.mpr negative) finite
      exact .unsigned spelled again
  | string value =>
    refine .unsigned ⟨value, rfl⟩ ?_
    rw [Token.literal?, show (Literal.string value).word.token.kind = .string from rfl]
    exact congrArg (some <| Literal.string ·) (Text.unquoted_quoted _ _)
  | boolean value => cases value <;> exact .unsigned rfl rfl
  | null => exact .unsigned rfl rfl

/-! ### Places of folded expressions -/

/-- No expression leaves open a level that is tighter than that of what needs no parentheses. -/
theorem Expr.openLevel_le (expr : Expr) : expr.openLevel ≤ atomLevel := by
  have operator {level : Nat} (tight : level ≤ atomLevel) (rest : Nat) :
      min level rest ≤ atomLevel := Nat.le_trans (Nat.min_le_left _ _) tight
  cases expr with
  | binary left op right => exact operator (by cases op <;> decide) _
  | unary op operand => exact operator (by cases op <;> decide) _
  | between operand low high negated => exact operator (by decide) _
  | like operand pattern escape negated insensitive =>
    cases escape <;> exact operator (by decide) _
  | _ => exact Nat.le_refl _

/-- The first expression may stand wherever the second may: it leaves no looser run of operators open,
and it is a literal, or the outermost operators of both bind alike. -/
structure Expr.Replaces (expr' expr : Expr) : Prop where
  /-- What does not go on with the second expression does not go on with the first. -/
  openLevel : expr.openLevel ≤ expr'.openLevel
  /-- If the first expression ends in a pattern, so does the second. -/
  inPattern : expr'.endsInPattern = true → expr.endsInPattern = true
  /-- The first expression is a literal, or both bind alike. -/
  outermost : (∃ value, expr' = .literal value) ∨
    expr'.level .adql = expr.level .adql ∧ expr'.isUnary = expr.isUnary

namespace Expr.Replaces

variable {expr expr' operand operand' : Expr}

/-- Every expression replaces itself. -/
theorem refl (expr : Expr) : expr.Replaces expr :=
  ⟨Nat.le_refl _, id, .inr ⟨rfl, rfl⟩⟩

/-- A literal replaces any expression. -/
theorem literal (value : Literal) (expr : Expr) : (Expr.literal value).Replaces expr :=
  ⟨expr.openLevel_le, nofun, .inl ⟨value, rfl⟩⟩

/-- If neither a run of operators nor a pattern is left open, it is enough that both bind alike. -/
theorem of_atom (closed : expr'.openLevel = atomLevel) (plain : expr'.endsInPattern = false)
    (level : expr'.level .adql = expr.level .adql) (isUnary : expr'.isUnary = expr.isUnary) :
    expr'.Replaces expr :=
  ⟨closed ▸ expr.openLevel_le, fun inPattern => absurd (plain.symm.trans inPattern) nofun,
    .inr ⟨level, isUnary⟩⟩

/-- An operand at the end leaves no looser run of operators open than the one that it replaces.
Whether it is put in parentheses is told by its outermost operator. -/
theorem openLevel_last (h : operand'.Replaces operand) {level : Nat} {needed needed' : Bool}
    (alike : operand'.level .adql = operand.level .adql → operand'.isUnary = operand.isUnary →
      needed' = needed) :
    min level (if needed then atomLevel else operand.openLevel) ≤
      min level (if needed' then atomLevel else operand'.openLevel) := by
  refine Nat.le_min.mpr ⟨Nat.min_le_left _ _, Nat.le_trans (Nat.min_le_right _ _) ?_⟩
  rcases h.outermost with ⟨value, rfl⟩ | ⟨levels, unary⟩
  · have whole : (if needed' then atomLevel else (Expr.literal value).openLevel) = atomLevel := by
      split <;> rfl
    rw [whole]
    split
    · exact Nat.le_refl _
    · exact operand.openLevel_le
  · rw [alike levels unary]
    split
    · exact Nat.le_refl _
    · exact h.openLevel

/-- An expression that ends with an operand is replaced if the operand is. -/
theorem of_last (h : operand'.Replaces operand) {level : Nat} {needed needed' : Bool}
    (alike : operand'.level .adql = operand.level .adql → operand'.isUnary = operand.isUnary →
      needed' = needed)
    (open' : expr.openLevel = min level (if needed then atomLevel else operand.openLevel))
    (openFolded : expr'.openLevel = min level (if needed' then atomLevel else operand'.openLevel))
    (pattern : expr.endsInPattern = (!needed && operand.endsInPattern))
    (patternFolded : expr'.endsInPattern = (!needed' && operand'.endsInPattern))
    (sameLevel : expr'.level .adql = expr.level .adql) (isUnary : expr'.isUnary = expr.isUnary) :
    expr'.Replaces expr := by
  refine ⟨open' ▸ openFolded ▸ h.openLevel_last alike, fun inPattern => ?_, .inr ⟨sameLevel, isUnary⟩⟩
  rw [patternFolded, Bool.and_eq_true] at inPattern
  rcases h.outermost with ⟨value, rfl⟩ | ⟨levels, unary⟩
  · cases inPattern.2
  · rw [pattern, Bool.and_eq_true, ← alike levels unary]
    exact ⟨inPattern.1, h.inPattern inPattern.2⟩

/-- Operands that bind alike are put in parentheses in the same places. -/
theorem looserThan_eq {minLevel : Nat} (levels : operand'.level .adql = operand.level .adql)
    (_ : operand'.isUnary = operand.isUnary) :
    operand'.looserThan minLevel = operand.looserThan minLevel := by
  rw [looserThan, looserThan, levels]

/-- Right operands that bind alike are put in parentheses in the same places. -/
theorem looserRight_eq {minLevel : Nat} (levels : operand'.level .adql = operand.level .adql)
    (unary : operand'.isUnary = operand.isUnary) :
    operand'.looserRight minLevel = operand.looserRight minLevel := by
  rw [looserRight, looserRight, looserThan_eq levels unary, unary]

/-- An operand is closed where the operand that it replaces is. -/
theorem closedAt (h : expr'.Replaces expr) {minLevel level : Nat} (low : level < atomLevel)
    (closed : expr.ClosedAt minLevel level) : expr'.ClosedAt minLevel level := by
  intro bare
  rcases h.outermost with ⟨value, rfl⟩ | ⟨levels, unary⟩
  · exact low
  · rw [looserThan_eq levels unary] at bare
    exact Nat.lt_of_lt_of_le (closed bare) h.openLevel

/-- What is put in the place of an expression ends in no pattern where it stands bare, if the
expression does not. -/
theorem endsInPattern_eq_false (h : expr'.Replaces expr) {minLevel : Nat}
    (plain : expr.looserThan minLevel = false → expr.endsInPattern = false)
    (bare : expr'.looserThan minLevel = false) : expr'.endsInPattern = false := by
  rcases h.outermost with ⟨value, rfl⟩ | ⟨levels, unary⟩
  · rfl
  · rw [looserThan_eq levels unary] at bare
    have none := plain bare
    by_contra inPattern
    rw [h.inPattern (by simpa using inPattern)] at none
    cases none

/-- What is simplified replaces what is not. -/
theorem simplified (h : expr.rebuilt.Replaces expr) : expr.reduced.Replaces expr := by
  rw [reduced_eq]
  cases worth : value? expr.rebuilt with
  | none => rwa [simplified_of_none worth]
  | some value => rw [simplified_of_some worth]; exact .literal value expr

end Expr.Replaces

/-- An expression with folded parts may stand wherever the expression may. -/
theorem Expr.rebuilt_replaces : ∀ expr : Expr, expr.rebuilt.Replaces expr
  | .literal _ => .refl _
  | .column _ => .refl _
  | .wildcard _ => .refl _
  | .binary _ _ right => right.rebuilt_replaces.simplified.of_last Replaces.looserRight_eq
      rfl rfl rfl rfl rfl rfl
  | .unary _ operand => operand.rebuilt_replaces.simplified.of_last Replaces.looserRight_eq
      rfl rfl rfl rfl rfl rfl
  | .between _ _ high _ => high.rebuilt_replaces.simplified.of_last Replaces.looserThan_eq
      rfl rfl rfl rfl rfl rfl
  -- whatever the pattern is, one without an escape clause is at the end
  | .like _ pattern none _ _ =>
      ⟨pattern.rebuilt_replaces.simplified.openLevel_last Replaces.looserThan_eq, fun _ => rfl,
        .inr ⟨rfl, rfl⟩⟩
  | .like _ _ (some escape) _ _ => escape.rebuilt_replaces.simplified.of_last Replaces.looserThan_eq
      rfl rfl rfl rfl rfl rfl
  | .call .. => .of_atom rfl rfl rfl rfl
  | .geometry .. => .of_atom rfl rfl rfl rfl
  | .isNull .. => .of_atom rfl rfl rfl rfl
  | .inList .. => .of_atom rfl rfl rfl rfl
  | .inQuery .. => .of_atom rfl rfl rfl rfl
  | .exists _ => .of_atom rfl rfl rfl rfl
  | .subquery _ => .of_atom rfl rfl rfl rfl
  | .case .. => .of_atom rfl rfl rfl rfl
  | .cast .. => .of_atom rfl rfl rfl rfl
  | .paren _ => .of_atom rfl rfl rfl rfl

/-- A folded expression may stand wherever the expression may. -/
theorem Expr.reduced_replaces (expr : Expr) : expr.reduced.Replaces expr :=
  expr.rebuilt_replaces.simplified

/-! ### Parts of folded trees -/

/-- A folded expression is readable if an expression with folded parts is, or if it is a literal whose
leaf can be written. -/
theorem Expr.readable_reduced {expr : Expr}
    (h : (∀ leaf ∈ expr.rebuilt.leaves, leaf.Writable) → expr.rebuilt.Readable)
    (writable : ∀ leaf ∈ expr.reduced.leaves, leaf.Writable) : expr.reduced.Readable := by
  rw [reduced_eq] at writable ⊢
  cases worth : value? expr.rebuilt with
  | none =>
    rw [simplified_of_none worth] at writable ⊢
    exact h writable
  | some value =>
    rw [simplified_of_some worth] at writable ⊢
    exact .literal (Literal.readable_of_writable writable)

/-- Folded trees in a list are readable, if each of them is readable when its leaves can be written. -/
theorem forall_readable {α : Type} {leaves : α → List Leaf} {Readable : α → Prop} {reduced : α → α}
    {trees : List α}
    (h : ∀ tree ∈ trees, (∀ leaf ∈ leaves (reduced tree), leaf.Writable) → Readable (reduced tree))
    (writable : ∀ leaf ∈ (trees.map reduced).flatMap leaves, leaf.Writable) :
    ∀ tree ∈ trees.map reduced, Readable tree := by
  rw [List.forall_mem_flatMap, List.forall_mem_map] at writable
  rw [List.forall_mem_map]
  exact fun tree mem => h tree mem (writable tree mem)

/-- Folded expressions are readable, if each of them is readable when its leaves can be written. -/
theorem Expr.readable_reducedList {exprs : List Expr}
    (h : ∀ expr ∈ exprs, (∀ leaf ∈ expr.reduced.leaves, leaf.Writable) → expr.reduced.Readable)
    (writable : ∀ leaf ∈ leavesList (reducedList exprs), leaf.Writable) :
    ∀ expr ∈ reducedList exprs, expr.Readable := by
  rw [leavesList_eq, reducedList_eq_map] at writable
  rw [reducedList_eq_map]
  exact forall_readable h writable

/-- A folded expression that may be missing is readable, if it is readable when its leaves can be
written. -/
theorem Expr.readable_reducedOption {expr? : Option Expr}
    (h : ∀ expr ∈ expr?, (∀ leaf ∈ expr.reduced.leaves, leaf.Writable) → expr.reduced.Readable)
    (writable : ∀ leaf ∈ leavesOption (reducedOption expr?), leaf.Writable) :
    ∀ expr ∈ reducedOption expr?, expr.Readable := by
  cases expr? with
  | none => exact nofun
  | some expr => exact fun _ same => by cases same; exact h expr rfl writable

/-- Folded select items are readable, if each is readable when its leaves can be written. -/
theorem SelectItem.readable_reducedList {items : List SelectItem}
    (h : ∀ item ∈ items, (∀ leaf ∈ item.reduced.leaves, leaf.Writable) → item.reduced.Readable)
    (writable : ∀ leaf ∈ leavesList (reducedList items), leaf.Writable) :
    ∀ item ∈ reducedList items, item.Readable := by
  rw [leavesList_eq, reducedList_eq_map] at writable
  rw [reducedList_eq_map]
  exact forall_readable h writable

/-- Folded tables are readable, if each is readable when its leaves can be written. -/
theorem TableRef.readable_reducedList {tables : List TableRef}
    (h : ∀ table ∈ tables, (∀ leaf ∈ table.reduced.leaves, leaf.Writable) → table.reduced.Readable)
    (writable : ∀ leaf ∈ leavesList (reducedList tables), leaf.Writable) :
    ∀ table ∈ reducedList tables, table.Readable := by
  rw [leavesList_eq, reducedList_eq_map] at writable
  rw [reducedList_eq_map]
  exact forall_readable h writable

/-- Folded named queries are readable, if each is readable when its leaves can be written. -/
theorem CommonTable.readable_reducedList {tables : List CommonTable}
    (h : ∀ table ∈ tables, (∀ leaf ∈ table.reduced.leaves, leaf.Writable) → table.reduced.Readable)
    (writable : ∀ leaf ∈ leavesList (reducedList tables), leaf.Writable) :
    ∀ table ∈ reducedList tables, table.Readable := by
  rw [leavesList_eq, reducedList_eq_map] at writable
  rw [reducedList_eq_map]
  exact forall_readable h writable

/-- Folding leaves as many expressions as there were. -/
theorem Expr.length_reducedList (exprs : List Expr) : (reducedList exprs).length = exprs.length := by
  rw [reducedList_eq_map, List.length_map]

/-- Folding leaves no list of expressions empty that was not. -/
theorem Expr.reducedList_ne_nil {exprs : List Expr} (nonempty : exprs ≠ []) :
    reducedList exprs ≠ [] := by
  rwa [reducedList_eq_map, Ne, List.map_eq_nil_iff]

/-- Folding leaves no list of branches empty that was not. -/
theorem Branch.reducedList_ne_nil {branches : List Branch} (nonempty : branches ≠ []) :
    reducedList branches ≠ [] := by
  rwa [reducedList_eq_map, Ne, List.map_eq_nil_iff]

/-- Folding leaves no select list empty that was not. -/
theorem SelectItem.reducedList_ne_nil {items : List SelectItem} (nonempty : items ≠ []) :
    reducedList items ≠ [] := by
  rwa [reducedList_eq_map, Ne, List.map_eq_nil_iff]

/-- Folding leaves no list of tables empty that was not. -/
theorem TableRef.reducedList_ne_nil {tables : List TableRef} (nonempty : tables ≠ []) :
    reducedList tables ≠ [] := by
  rwa [reducedList_eq_map, Ne, List.map_eq_nil_iff]

/-- What holds of folded branches holds of each branch once it is folded. -/
theorem Branch.forall_reducedList {branches : List Branch} {P : Branch → Prop} :
    (∀ branch ∈ reducedList branches, P branch) ↔ ∀ branch ∈ branches, P branch.reduced := by
  rw [reducedList_eq_map, List.forall_mem_map]

/-- What holds of folded sort keys holds of each sort key once it is folded. -/
theorem SortKey.forall_reducedList {keys : List SortKey} {P : SortKey → Prop} :
    (∀ key ∈ reducedList keys, P key) ↔ ∀ key ∈ keys, P key.reduced := by
  rw [reducedList_eq_map, List.forall_mem_map]

/-- A folded body starts with the word that the body starts with. -/
theorem QueryBody.startsBare_reduced (body : QueryBody) :
    body.reduced.startsBare = body.startsBare := by
  cases body with
  | spec spec => rfl
  | setOperation op all left right => exact left.startsBare_reduced
  | nested query => rfl

/-- A folded query starts with the word that the query starts with. -/
theorem Query.startsBare_reduced (query : Query) : query.reduced.startsBare = query.startsBare := by
  obtain ⟨commonTables, body, _, _⟩ := query
  have tables : (CommonTable.reducedList commonTables).isEmpty = commonTables.isEmpty := by
    cases commonTables <;> rfl
  exact congrArg₂ (fun empty bare => !empty || bare) tables body.startsBare_reduced

/-- A folded body binds as tightly as the body. -/
theorem QueryBody.looserThan_reduced (body : QueryBody) (level : Nat) :
    body.reduced.looserThan level = body.looserThan level := by
  cases body <;> rfl

/-- A folded query is put together of its folded parts. -/
theorem Query.reduced_assembleQuery (commonTables : List CommonTable) (body : QueryBody)
    (keys : List SortKey) (offset : Option UInt64) :
    (assembleQuery commonTables body keys offset).reduced =
      assembleQuery (CommonTable.reducedList commonTables) body.reduced (SortKey.reducedList keys)
        offset := by
  cases body with
  | spec spec => cases spec; rfl
  | setOperation | nested => rfl

/-- Folding gives a specification neither sort keys nor an offset. -/
theorem QueryBody.Plain.reduced {body : QueryBody} (h : body.Plain) : body.reduced.Plain := by
  cases body with
  | spec spec =>
    obtain ⟨_, _, _, _, _, _, _, keys, offset⟩ := spec
    obtain ⟨noKeys, noOffset⟩ := h _ rfl
    rintro _ ⟨⟩
    cases noKeys
    exact ⟨rfl, noOffset⟩
  | setOperation | nested => exact nofun

/-! ### Folded trees -/

mutual

/-- A folded expression is readable if the expression is and the leaves can be written. -/
theorem Expr.Readable.reduced : ∀ {expr : Expr}, expr.Readable →
    (∀ leaf ∈ expr.reduced.leaves, leaf.Writable) → expr.reduced.Readable
  | _, .literal value => Expr.readable_reduced fun _ => .literal value
  | _, .column valid => Expr.readable_reduced fun _ => .column valid
  | _, @Expr.Readable.binary left _ op hleft closed hright => Expr.readable_reduced fun writable =>
      have ⟨first, second⟩ := List.forall_mem_append.mp writable
      .binary (hleft.reduced first) (left.reduced_replaces.closedAt
        (Nat.lt_of_le_of_lt (PrecedenceTable.binaryLevel_adql_le op) (by decide)) closed)
        (hright.reduced second)
  | _, .unary operand => Expr.readable_reduced fun writable => .unary (operand.reduced writable)
  | _, .call valid plain arguments => Expr.readable_reduced fun writable =>
      have ⟨_, second⟩ := List.forall_mem_append.mp writable
      .call valid plain
        (Expr.readable_reducedList (fun argument mem => (arguments argument mem).reduced) second)
  | _, .aggregate aggregates argument => Expr.readable_reduced fun writable =>
      have ⟨_, second⟩ := List.forall_mem_append.mp writable
      .aggregate aggregates (argument.reduced (List.forall_mem_append.mp second).1)
  | _, .countAll => Expr.readable_reduced fun _ => .countAll
  | _, @Expr.Readable.geometry function args admits arguments => Expr.readable_reduced fun writable =>
      have ⟨_, second⟩ := List.forall_mem_cons.mp writable
      .geometry (show function.Admits (Expr.reducedList args).length by rwa [Expr.length_reducedList])
        (Expr.readable_reducedList (fun argument mem => (arguments argument mem).reduced) second)
  | _, @Expr.Readable.isNull operand _ hoperand closed => Expr.readable_reduced fun writable =>
      .isNull (hoperand.reduced writable) (operand.reduced_replaces.closedAt (by decide) closed)
  | _, @Expr.Readable.between operand low _ _ hoperand closed hlow closedLow hhigh =>
      Expr.readable_reduced fun writable =>
        have ⟨first, rest⟩ := List.forall_mem_append.mp writable
        have ⟨second, third⟩ := List.forall_mem_append.mp rest
        .between (hoperand.reduced first) (operand.reduced_replaces.closedAt (by decide) closed)
          (hlow.reduced second) (low.reduced_replaces.closedAt (by decide) closedLow)
          (hhigh.reduced third)
  | _, @Expr.Readable.inList operand _ _ hoperand closed nonempty items =>
      Expr.readable_reduced fun writable =>
        have ⟨first, second⟩ := List.forall_mem_append.mp writable
        .inList (hoperand.reduced first) (operand.reduced_replaces.closedAt (by decide) closed)
          (Expr.reducedList_ne_nil nonempty)
          (Expr.readable_reducedList (fun item mem => (items item mem).reduced) second)
  | _, @Expr.Readable.inQuery operand query _ hoperand closed hquery bare =>
      Expr.readable_reduced fun writable =>
        have ⟨first, second⟩ := List.forall_mem_append.mp writable
        .inQuery (hoperand.reduced first) (operand.reduced_replaces.closedAt (by decide) closed)
          (hquery.reduced second) (query.startsBare_reduced.trans bare)
  | _, @Expr.Readable.like operand pattern escape _ _ hoperand closed hpattern hescape plain =>
      Expr.readable_reduced fun writable =>
        have ⟨first, rest⟩ := List.forall_mem_append.mp writable
        have ⟨second, third⟩ := List.forall_mem_append.mp rest
        .like (hoperand.reduced first) (operand.reduced_replaces.closedAt (by decide) closed)
          (hpattern.reduced second)
          (Expr.readable_reducedOption (fun text mem => (hescape text mem).reduced) third)
          fun isSome => pattern.reduced_replaces.endsInPattern_eq_false
            (plain (by cases escape with
              | none => cases isSome
              | some => rfl))
  | _, .exists query => Expr.readable_reduced fun writable => .exists (query.reduced writable)
  | _, .subquery query => Expr.readable_reduced fun writable => .subquery (query.reduced writable)
  | _, @Expr.Readable.case _ _ branches subject nonempty conditions results otherwise =>
      Expr.readable_reduced fun writable =>
        have ⟨first, rest⟩ := List.forall_mem_append.mp writable
        have ⟨second, third⟩ := List.forall_mem_append.mp rest
        have ⟨ofConditions, ofResults⟩ := Branch.forall_leavesList.mp second
        .case (Expr.readable_reducedOption (fun value mem => (subject value mem).reduced) first)
          (Branch.reducedList_ne_nil nonempty)
          (Branch.forall_reducedList.mpr fun ⟨_, _⟩ mem => (conditions _ mem).reduced
            (Branch.forall_reducedList.mp ofConditions _ mem))
          (Branch.forall_reducedList.mpr fun ⟨_, _⟩ mem => (results _ mem).reduced
            (Branch.forall_reducedList.mp ofResults _ mem))
          (Expr.readable_reducedOption (fun value mem => (otherwise value mem).reduced) third)
  | _, .cast operand => Expr.readable_reduced fun writable =>
      .cast (operand.reduced (List.forall_mem_append.mp writable).1)
  | _, .paren inner => Expr.readable_reduced fun writable => .paren (inner.reduced writable)

/-- A folded select item is readable if the item is and the leaves can be written. -/
theorem SelectItem.Readable.reduced : ∀ {item : SelectItem}, item.Readable →
    (∀ leaf ∈ item.reduced.leaves, leaf.Writable) → item.reduced.Readable
  | _, .wildcard nonempty valid => fun _ => .wildcard nonempty valid
  | _, .value expr valid => fun writable =>
      .value (expr.reduced (List.forall_mem_append.mp writable).1) valid

/-- What matches the rows of a join is readable with a folded condition, if it is without and the leaves
can be written. -/
theorem JoinConstraint.Readable.reduced :
    ∀ {free : Bool} {constraint : JoinConstraint}, constraint.Readable free →
      (∀ leaf ∈ constraint.reduced.leaves, leaf.Writable) → constraint.reduced.Readable free
  | _, _, .on condition => fun writable => .on (condition.reduced writable)
  | _, _, .using nonempty valid => fun _ => .using nonempty valid
  | _, _, .none => fun _ => .none

/-- A folded table is readable if the table is and the leaves can be written. -/
theorem TableRef.Readable.reduced : ∀ {table : TableRef}, table.Readable →
    (∀ leaf ∈ table.reduced.leaves, leaf.Writable) → table.reduced.Readable
  | _, .table valid validAlias => fun _ => .table valid validAlias
  | _, .subquery query valid => fun writable =>
      .subquery (query.reduced (List.forall_mem_append.mp writable).1) valid
  | _, .join left right product constraint => fun writable =>
      have ⟨first, rest⟩ := List.forall_mem_append.mp writable
      have ⟨second, third⟩ := List.forall_mem_append.mp rest
      .join (left.reduced first) (right.reduced second) product (constraint.reduced third)
  | _, .nested inner => fun writable => .nested (inner.reduced writable)

/-- A folded specification is readable if the specification is and the leaves can be written. -/
theorem QuerySpec.Readable.reduced : ∀ {spec : QuerySpec}, spec.Readable →
    (∀ leaf ∈ spec.reduced.leaves, leaf.Writable) → spec.reduced.Readable
  | ⟨_, top, items, tables, condition, groups, having, keys, offset⟩,
    .mk htop nonempty hitems nonemptyTables htables hcondition hgroups hhaving => fun writable => by
      obtain ⟨-, writable⟩ := List.forall_mem_append.mp writable
      obtain ⟨ofItems, writable⟩ := List.forall_mem_append.mp writable
      obtain ⟨ofTables, writable⟩ := List.forall_mem_append.mp writable
      obtain ⟨ofCondition, writable⟩ := List.forall_mem_append.mp writable
      obtain ⟨ofGroups, writable⟩ := List.forall_mem_append.mp writable
      obtain ⟨ofHaving, -⟩ := List.forall_mem_append.mp writable
      have others (some : SelectItem.reducedList items ≠ [.unnamed (.wildcard [])]) :
          items ≠ [.unnamed (.wildcard [])] := fun everything => some (by rw [everything]; rfl)
      exact .mk htop (SelectItem.reducedList_ne_nil nonempty)
        (fun some => SelectItem.readable_reducedList
          (fun item mem => (hitems (others some) item mem).reduced) ofItems)
        (TableRef.reducedList_ne_nil nonemptyTables)
        (TableRef.readable_reducedList (fun table mem => (htables table mem).reduced) ofTables)
        (Expr.readable_reducedOption (fun expr mem => (hcondition expr mem).reduced) ofCondition)
        (Expr.readable_reducedList (fun expr mem => (hgroups expr mem).reduced) ofGroups)
        (Expr.readable_reducedOption (fun expr mem => (hhaving expr mem).reduced) ofHaving)

/-- A folded body is readable if the body is and the leaves can be written. -/
theorem QueryBody.Readable.reduced : ∀ {body : QueryBody}, body.Readable →
    (∀ leaf ∈ body.reduced.leaves, leaf.Writable) → body.reduced.Readable
  | _, @QueryBody.Readable.spec ⟨_, _, _, _, _, _, _, _, _⟩ spec noKeys noOffset => fun writable =>
      .spec (spec.reduced writable) (by cases noKeys; rfl) noOffset
  | _, @QueryBody.Readable.setOperation op _ left right hleft bareLeft hright bareRight =>
      fun writable =>
        have ⟨first, second⟩ := List.forall_mem_append.mp writable
        .setOperation (hleft.reduced first) ((left.looserThan_reduced op.level).trans bareLeft)
          (hright.reduced second) ((right.looserThan_reduced (op.level + 1)).trans bareRight)
  | _, .nested query => fun writable => .nested (query.reduced writable)

/-- A folded named query is readable if the query is and the leaves can be written. -/
theorem CommonTable.Readable.reduced : ∀ {table : CommonTable}, table.Readable →
    (∀ leaf ∈ table.reduced.leaves, leaf.Writable) → table.reduced.Readable
  | ⟨_, _, _⟩, .mk valid validColumns query => fun writable =>
      have ⟨_, rest⟩ := List.forall_mem_cons.mp writable
      .mk valid validColumns (query.reduced (List.forall_mem_append.mp rest).2)

/-- A folded query is readable if the query is and the leaves can be written. -/
theorem Query.Readable.reduced : ∀ {query : Query}, query.Readable →
    (∀ leaf ∈ query.reduced.leaves, leaf.Writable) → query.reduced.Readable
  | _, @Query.Readable.mk commonTables body keys offset tables hbody hkeys hoffset =>
      fun writable => by
        rw [Query.reduced_assembleQuery] at writable ⊢
        rw [leaves_assembleQuery hbody.plain.reduced] at writable
        obtain ⟨ofTables, writable⟩ := List.forall_mem_append.mp writable
        obtain ⟨ofBody, writable⟩ := List.forall_mem_append.mp writable
        obtain ⟨ofKeys, -⟩ := List.forall_mem_append.mp writable
        refine .mk ?_ (hbody.reduced ofBody) ?_ hoffset
        · exact CommonTable.readable_reducedList (fun table mem => (tables table mem).reduced) ofTables
        · rw [SortKey.forall_leavesList, SortKey.forall_reducedList] at ofKeys
          exact SortKey.forall_reducedList.mpr fun ⟨_, _⟩ mem =>
            (hkeys _ mem).reduced (ofKeys _ mem)

end

end Adql
