import Mathlib.Logic.Basic
import Adql.Traversal.Passes

/-!
# Expressions without parentheses

`Expr.stripped` is the expression with the contents of all its parentheses in their place, as the
pass over trees leaves it (`Transformer.withoutParentheses`).  There is one equation for each way to
build an expression without queries: but for parentheses, the parts are stripped one by one.

So being the same but for parentheses is a likeness (`Expr.Likeness`): a way to compare what is read
with what was printed that can be followed from the parts of an expression to the whole.
-/

namespace Adql

namespace Expr

/-- The expression without its parentheses. -/
def stripped (expr : Expr) : Expr :=
  Id.run (Transformer.withoutParentheses.applyToExpr expr)

/-- Parentheses are replaced by what they contain. -/
@[simp] theorem stripped_paren (inner : Expr) : (paren inner).stripped = inner.stripped := rfl

/-- A literal has no parentheses. -/
@[simp] theorem stripped_literal (value : Literal) : (literal value).stripped = literal value := rfl

/-- A column has no parentheses. -/
@[simp] theorem stripped_column (name : QualifiedName) : (column name).stripped = column name := rfl

/-- A wildcard has no parentheses. -/
@[simp] theorem stripped_wildcard (qualifier : List Identifier) :
    (wildcard qualifier).stripped = wildcard qualifier := rfl

/-- The operands of a binary operator are stripped. -/
@[simp] theorem stripped_binary (left : Expr) (op : BinaryOp) (right : Expr) :
    (binary left op right).stripped = binary left.stripped op right.stripped := rfl

/-- The operand of a prefix operator is stripped. -/
@[simp] theorem stripped_unary (op : UnaryOp) (operand : Expr) :
    (unary op operand).stripped = unary op operand.stripped := rfl

/-- The operand of a test for null is stripped. -/
@[simp] theorem stripped_isNull (operand : Expr) (negated : Bool) :
    (isNull operand negated).stripped = isNull operand.stripped negated := rfl

/-- The operands of a range test are stripped. -/
@[simp] theorem stripped_between (operand low high : Expr) (negated : Bool) :
    (between operand low high negated).stripped =
      between operand.stripped low.stripped high.stripped negated := rfl

/-- The operand of a conversion is stripped. -/
@[simp] theorem stripped_cast (operand : Expr) (target : DataType) :
    (cast operand target).stripped = cast operand.stripped target := rfl

/-- In a list of expressions, each of them is stripped. -/
theorem rebuildList_withoutParentheses (exprs : List Expr) :
    Id.run (rebuildList Transformer.withoutParentheses exprs) = exprs.map stripped := by
  induction exprs with
  | nil => rfl
  | cons expr rest ih =>
    rw [List.map_cons, ← ih]
    rfl

/-- If there is an expression, it is stripped. -/
theorem rebuildOption_withoutParentheses (expr? : Option Expr) :
    Id.run (rebuildOption Transformer.withoutParentheses expr?) = expr?.map stripped := by
  cases expr? <;> rfl

/-- The arguments of a call are stripped. -/
@[simp] theorem stripped_call (name : Identifier) (arguments : List Expr) (distinct : Bool) :
    (call name arguments distinct).stripped = call name (arguments.map stripped) distinct := by
  rw [← rebuildList_withoutParentheses]
  rfl

/-- The arguments of a geometry function are stripped. -/
@[simp] theorem stripped_geometry (function : Geometry) (arguments : List Expr) :
    (geometry function arguments).stripped = geometry function (arguments.map stripped) := by
  rw [← rebuildList_withoutParentheses]
  rfl

/-- The operand and the items of a membership test are stripped. -/
@[simp] theorem stripped_inList (operand : Expr) (items : List Expr) (negated : Bool) :
    (inList operand items negated).stripped =
      inList operand.stripped (items.map stripped) negated := by
  rw [← rebuildList_withoutParentheses]
  rfl

/-- The operands of a pattern match are stripped. -/
@[simp] theorem stripped_like (operand pattern : Expr) (escape : Option Expr)
    (negated caseInsensitive : Bool) :
    (like operand pattern escape negated caseInsensitive).stripped =
      like operand.stripped pattern.stripped (escape.map stripped) negated caseInsensitive := by
  rw [← rebuildOption_withoutParentheses]
  rfl

end Expr

/-- The branch without the parentheses in it. -/
def Branch.stripped (branch : Branch) : Branch :=
  ⟨branch.condition.stripped, branch.result.stripped⟩

/-- In a list of branches, each of them is stripped. -/
theorem Branch.rebuildList_withoutParentheses (branches : List Branch) :
    Id.run (rebuildList Transformer.withoutParentheses branches) = branches.map stripped := by
  induction branches with
  | nil => rfl
  | cons branch rest ih =>
    obtain ⟨condition, result⟩ := branch
    rw [List.map_cons, ← ih]
    rfl

/-- The parts of a case distinction are stripped. -/
@[simp] theorem Expr.stripped_case (subject : Option Expr) (branches : List Branch)
    (otherwise : Option Expr) :
    (Expr.case subject branches otherwise).stripped =
      .case (subject.map stripped) (branches.map Branch.stripped) (otherwise.map stripped) := by
  rw [← rebuildOption_withoutParentheses, ← rebuildOption_withoutParentheses,
    ← Branch.rebuildList_withoutParentheses]
  rfl

/-! ### Likeness -/

/-- A way in which the tree that is read may be like the expression that was printed.  It does not
mind parentheses that were added, and what is built alike of parts that are alike is alike. -/
class Expr.Likeness (alike : Expr → Expr → Prop) : Prop where
  /-- An expression is like itself. -/
  refl (expr : Expr) : alike expr expr
  /-- Parentheses may be added. -/
  added {tree expr : Expr} : alike tree expr → alike (.paren tree) expr
  paren {tree expr : Expr} : alike tree expr → alike (.paren tree) (.paren expr)
  binary {tree tree' left right : Expr} {op : BinaryOp} : alike tree left → alike tree' right →
    alike (.binary tree op tree') (.binary left op right)
  unary {tree operand : Expr} {op : UnaryOp} : alike tree operand →
    alike (.unary op tree) (.unary op operand)
  isNull {tree operand : Expr} {negated : Bool} : alike tree operand →
    alike (.isNull tree negated) (.isNull operand negated)
  between {tree tree' tree'' operand low high : Expr} {negated : Bool} : alike tree operand →
    alike tree' low → alike tree'' high →
      alike (.between tree tree' tree'' negated) (.between operand low high negated)
  inList {tree operand : Expr} {items : List Expr} {negated : Bool} {read : Expr → Expr} :
    alike tree operand → (∀ item ∈ items, alike (read item) item) →
      alike (.inList tree (items.map read) negated) (.inList operand items negated)
  patternMatch {tree tree' operand pattern : Expr} {escape : Option Expr}
    {negated caseInsensitive : Bool} (read : Expr → Expr) : alike tree operand →
    alike tree' pattern → (∀ expr ∈ escape, alike (read expr) expr) →
      alike (.like tree tree' (escape.map read) negated caseInsensitive)
        (.like operand pattern escape negated caseInsensitive)
  call {name : Identifier} {arguments : List Expr} {distinct : Bool} (read : Expr → Expr) :
    (∀ argument ∈ arguments, alike (read argument) argument) →
      alike (.call name (arguments.map read) distinct) (.call name arguments distinct)
  geometry {function : Geometry} {arguments : List Expr} {read : Expr → Expr} :
    (∀ argument ∈ arguments, alike (read argument) argument) →
      alike (.geometry function (arguments.map read)) (.geometry function arguments)
  caseDistinction {subject otherwise : Option Expr} {branches : List Branch}
    {read read' read'' : Expr → Expr} : (∀ expr ∈ subject, alike (read expr) expr) →
    (∀ branch ∈ branches, alike (read' branch.condition) branch.condition ∧
      alike (read' branch.result) branch.result) →
    (∀ expr ∈ otherwise, alike (read'' expr) expr) →
      alike (.case (subject.map read)
        (branches.map fun branch => ⟨read' branch.condition, read' branch.result⟩)
        (otherwise.map read'')) (.case subject branches otherwise)
  cast {tree operand : Expr} {target : DataType} : alike tree operand →
    alike (.cast tree target) (.cast operand target)

/-- Both expressions are the same but for parentheses. -/
def Expr.EqStripped (tree expr : Expr) : Prop :=
  tree.stripped = expr.stripped

namespace Expr.EqStripped

variable {read : Expr → Expr}

/-- Expressions are the same but for parentheses if each of them is. -/
theorem map_list {exprs : List Expr} (same : ∀ expr ∈ exprs, EqStripped (read expr) expr) :
    (exprs.map read).map stripped = exprs.map stripped := by
  rw [List.map_map]
  exact List.map_congr_left same

/-- An expression that may be missing is the same but for parentheses if it is wherever it is there. -/
theorem map_option {expr? : Option Expr} (same : ∀ expr ∈ expr?, EqStripped (read expr) expr) :
    (expr?.map read).map stripped = expr?.map stripped := by
  cases expr? with
  | none => rfl
  | some expr => exact congrArg some (same expr rfl)

/-- Branches are the same but for parentheses if their parts are. -/
theorem map_branches {branches : List Branch}
    (same : ∀ branch ∈ branches, EqStripped (read branch.condition) branch.condition ∧
      EqStripped (read branch.result) branch.result) :
    (branches.map fun branch => (⟨read branch.condition, read branch.result⟩ : Branch)).map
      Branch.stripped = branches.map Branch.stripped := by
  rw [List.map_map]
  refine List.map_congr_left fun branch mem => ?_
  obtain ⟨condition, result⟩ := same branch mem
  exact congrArg₂ Branch.mk condition result

/-- Stripping parentheses is a likeness. -/
instance : Likeness EqStripped where
  refl _ := rfl
  added same := same
  paren same := same
  binary same same' := congrArg₂ (Expr.binary · _ ·) same same'
  unary same := congrArg (Expr.unary _) same
  isNull same := congrArg (Expr.isNull · _) same
  between same low high := by
    unfold EqStripped at same low high ⊢
    rw [stripped_between, stripped_between, same, low, high]
  inList same items := by
    unfold EqStripped at same ⊢
    rw [stripped_inList, stripped_inList, same, map_list items]
  patternMatch read same pattern escape := by
    unfold EqStripped at same pattern ⊢
    rw [stripped_like, stripped_like, same, pattern, map_option escape]
  call read arguments := by
    unfold EqStripped
    rw [stripped_call, stripped_call, map_list arguments]
  geometry arguments := by
    unfold EqStripped
    rw [stripped_geometry, stripped_geometry, map_list arguments]
  caseDistinction subject branches otherwise := by
    unfold EqStripped
    rw [stripped_case, stripped_case, map_option subject, map_branches branches,
      map_option otherwise]
  cast same := congrArg (Expr.cast · _) same

end Expr.EqStripped

end Adql
