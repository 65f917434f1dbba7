import Adql.Proofs.Leaves.Printed
import Adql.Proofs.Leaves.Queries
import Adql.Proofs.Readable.Reading

/-!
# The leaves of readable trees

The leaves of a readable tree can be written (`Query.Readable.writable`): its names are valid, its
numbers of rows are no larger than an integer literal may be, and its literals are words, or a sign and
a word, so they are finite.
-/

namespace Adql

open Adql.Decimal Adql.Grammar

/-! ### The leaves of several parts -/

section

variable {P : Leaf → Prop}

/-- What holds of the leaves of expressions holds of the leaves of each. -/
theorem Expr.forall_leavesList {exprs : List Expr} :
    (∀ leaf ∈ leavesList exprs, P leaf) ↔ ∀ expr ∈ exprs, ∀ leaf ∈ expr.leaves, P leaf := by
  rw [leavesList_eq, List.forall_mem_flatMap]

/-- What holds of the leaves of an expression that may be missing. -/
theorem Expr.forall_leavesOption {expr? : Option Expr} :
    (∀ leaf ∈ leavesOption expr?, P leaf) ↔ ∀ expr ∈ expr?, ∀ leaf ∈ expr.leaves, P leaf := by
  cases expr? with
  | none => exact ⟨fun _ => nofun, fun _ => List.forall_mem_nil _⟩
  | some expr => exact ⟨fun h _ same => by cases same; exact h, fun h => h expr rfl⟩

/-- What holds of the leaves of branches holds of the leaves of each. -/
theorem Branch.forall_leavesList {branches : List Branch} :
    (∀ leaf ∈ leavesList branches, P leaf) ↔
      (∀ branch ∈ branches, ∀ leaf ∈ branch.condition.leaves, P leaf) ∧
        ∀ branch ∈ branches, ∀ leaf ∈ branch.result.leaves, P leaf := by
  rw [leavesList_eq, List.forall_mem_flatMap, ← forall₂_and]
  exact forall₂_congr fun ⟨_, _⟩ _ => List.forall_mem_append

/-- What holds of the leaves of sort keys holds of the leaves of each. -/
theorem SortKey.forall_leavesList {keys : List SortKey} :
    (∀ leaf ∈ leavesList keys, P leaf) ↔ ∀ key ∈ keys, ∀ leaf ∈ key.expr.leaves, P leaf := by
  rw [leavesList_eq, List.forall_mem_flatMap]
  exact forall₂_congr fun ⟨_, _⟩ _ => Iff.rfl

/-- What holds of the leaves of select items holds of the leaves of each. -/
theorem SelectItem.forall_leavesList {items : List SelectItem} :
    (∀ leaf ∈ leavesList items, P leaf) ↔ ∀ item ∈ items, ∀ leaf ∈ item.leaves, P leaf := by
  rw [leavesList_eq, List.forall_mem_flatMap]

/-- What holds of the leaves of tables holds of the leaves of each. -/
theorem TableRef.forall_leavesList {tables : List TableRef} :
    (∀ leaf ∈ leavesList tables, P leaf) ↔ ∀ table ∈ tables, ∀ leaf ∈ table.leaves, P leaf := by
  rw [leavesList_eq, List.forall_mem_flatMap]

/-- What holds of the leaves of named queries holds of the leaves of each. -/
theorem CommonTable.forall_leavesList {tables : List CommonTable} :
    (∀ leaf ∈ leavesList tables, P leaf) ↔ ∀ table ∈ tables, ∀ leaf ∈ table.leaves, P leaf := by
  rw [leavesList_eq, List.forall_mem_flatMap]

end

/-! ### Leaves of readable pieces -/

/-- A number that has a text as an integer literal is no larger than one may be. -/
theorem le_maxInteger_of_spelled {count : Nat} (h : (countWord count).Spelled) :
    count ≤ maxInteger := by
  obtain ⟨value, bound, written⟩ := h
  have same : count.repr.toList = value.repr.toList := congrArg String.toList written
  rw [Nat.toList_repr, Nat.toList_repr] at same
  have read := congrArg (readNatural? 10) same
  rw [readNatural?_toDigits, readNatural?_toDigits] at read
  exact Option.some.inj read ▸ bound

/-- The leaf of a readable literal can be written. -/
theorem Literal.Readable.writable {value : Literal} (h : value.Readable) :
    ∀ leaf ∈ value.leaves, leaf.Writable := by
  cases value with
  | integer value =>
    refine List.forall_mem_singleton.mpr (show value.toInt.natAbs ≤ maxInteger from ?_)
    cases h with
    | unsigned spelled again =>
      have positive : (Literal.integer value).isNegative = false := by
        have single := Literal.words_eq spelled again
        by_contra negative
        rw [Literal.words, if_pos (by simpa using negative)] at single
        cases single
      have positive : 0 ≤ value.toInt := by
        simpa [Literal.isNegative, Int64.lt_iff_toInt_lt] using positive
      have bound := toInt_le_maxInteger value
      omega
    | signed signed spelled =>
      unfold Literal.words at signed
      split at signed
      · obtain ⟨-, same⟩ := List.cons.inj signed
        rw [← (List.cons.inj same).1] at spelled
        exact le_maxInteger_of_spelled spelled
      · cases signed
  | real value =>
    refine List.forall_mem_singleton.mpr (show value.isFinite = true from ?_)
    cases h with
    | unsigned _ again =>
      obtain ⟨real, found, same⟩ := Option.map_eq_some_iff.mp again
      cases same
      exact (Option.filter_eq_some_iff.mp found).2
    | signed signed spelled =>
      unfold Literal.words at signed
      split at signed
      · obtain ⟨-, same⟩ := List.cons.inj signed
        rw [← (List.cons.inj same).1] at spelled
        obtain ⟨other, positive, finite, written, -⟩ := spelled
        have written : Layout.query.text (-value) = Layout.query.text other := written
        have isFinite : (-value).isFinite = true :=
          Layout.isFinite_of_isReal (written ▸ Layout.isReal_text positive finite)
        rwa [Double.isFinite, Double.exponent_neg] at isFinite
      · cases signed
  | string value => exact List.forall_mem_singleton.mpr trivial
  | boolean | null => exact List.forall_mem_nil _

/-- Names that are valid can be written. -/
theorem writable_names {names : List Identifier} (valid : ∀ name ∈ names, name.Valid) :
    ∀ leaf ∈ names.map Leaf.name, leaf.Writable :=
  List.forall_mem_map.mpr valid

/-- A valid name that may be given can be written. -/
theorem writable_alias {alias? : Option Identifier} (valid : ∀ name ∈ alias?, name.Valid) :
    ∀ leaf ∈ Identifier.leavesOption alias?, leaf.Writable :=
  writable_names fun name mem => valid name (Option.mem_toList.mp mem)

/-- The names of a valid qualified name can be written. -/
theorem QualifiedName.Valid.writable {name : QualifiedName} (valid : name.Valid) :
    ∀ leaf ∈ name.leaves, leaf.Writable := by
  have names := writable_names valid
  rwa [List.map_append] at names

/-- The name of a function can be written, if it is valid or reserved. -/
theorem writable_called {name : Identifier} (valid : name.isReserved = false → name.Valid) :
    ∀ leaf ∈ name.calledLeaves, leaf.Writable := by
  unfold Identifier.calledLeaves
  split
  · exact List.forall_mem_nil _
  · next free => exact List.forall_mem_singleton.mpr (valid (Bool.eq_false_iff.mpr free))

/-- A number of rows that can be written and read can be written as a leaf. -/
theorem CountReadable.writable {count? : Option UInt64} (h : CountReadable count?) :
    ∀ leaf ∈ Leaf.count (count?.map UInt64.toNat), leaf.Writable := by
  cases count? with
  | none => exact List.forall_mem_nil _
  | some count => exact List.forall_mem_singleton.mpr (le_maxInteger_of_spelled (h count rfl).1)

/-- The leaf of a type can be written. -/
theorem DataType.writable (target : DataType) : ∀ leaf ∈ target.leaves, leaf.Writable := by
  have lengths (length? : Option UInt32) :
      ∀ leaf ∈ Leaf.count (length?.map UInt32.toNat), leaf.Writable := by
    cases length? with
    | none => exact List.forall_mem_nil _
    | some length =>
      refine List.forall_mem_singleton.mpr (show (length.toNat : Int).natAbs ≤ maxInteger from ?_)
      have small := length.toNat_lt
      simp only [maxInteger, Int.natAbs_natCast]
      omega
  cases target with
  | char length | varchar length => exact lengths length
  | point | circle | polygon => exact List.forall_mem_singleton.mpr trivial
  | _ => exact List.forall_mem_nil _

/-! ### Leaves of readable trees -/

mutual

/-- The leaves of a readable expression can be written. -/
theorem Expr.Readable.writable : ∀ {expr : Expr}, expr.Readable → ∀ leaf ∈ expr.leaves, leaf.Writable
  | _, .literal value => value.writable
  | _, .column valid => valid.writable
  | _, .binary left _ right => List.forall_mem_append.mpr ⟨left.writable, right.writable⟩
  | _, .unary operand => operand.writable
  | _, .call valid _ arguments => List.forall_mem_append.mpr ⟨writable_called fun _ => valid,
      Expr.forall_leavesList.mpr fun argument mem => (arguments argument mem).writable⟩
  | _, @Expr.Readable.aggregate keyword _ _ _ argument => List.forall_mem_append.mpr
      ⟨by rw [keyword.calledLeaves_regular]; exact List.forall_mem_nil _,
        List.forall_mem_append.mpr ⟨argument.writable, List.forall_mem_nil _⟩⟩
  | _, .countAll => by
      rw [Expr.leaves, Keyword.calledLeaves_regular]
      exact List.forall_mem_nil _
  | _, .geometry _ arguments => List.forall_mem_cons.mpr ⟨trivial,
      Expr.forall_leavesList.mpr fun argument mem => (arguments argument mem).writable⟩
  | _, .isNull operand _ => operand.writable
  | _, .between operand _ low _ high => List.forall_mem_append.mpr
      ⟨operand.writable, List.forall_mem_append.mpr ⟨low.writable, high.writable⟩⟩
  | _, .inList operand _ _ items => List.forall_mem_append.mpr
      ⟨operand.writable, Expr.forall_leavesList.mpr fun item mem => (items item mem).writable⟩
  | _, .inQuery operand _ query _ => List.forall_mem_append.mpr ⟨operand.writable, query.writable⟩
  | _, .like operand _ pattern escape _ => List.forall_mem_append.mpr
      ⟨operand.writable, List.forall_mem_append.mpr ⟨pattern.writable,
        Expr.forall_leavesOption.mpr fun text mem => (escape text mem).writable⟩⟩
  | _, .exists query => query.writable
  | _, .subquery query => query.writable
  | _, .case subject _ conditions results otherwise => List.forall_mem_append.mpr
      ⟨Expr.forall_leavesOption.mpr fun value mem => (subject value mem).writable,
        List.forall_mem_append.mpr
          ⟨Branch.forall_leavesList.mpr ⟨fun branch mem => (conditions branch mem).writable,
            fun branch mem => (results branch mem).writable⟩,
          Expr.forall_leavesOption.mpr fun value mem => (otherwise value mem).writable⟩⟩
  | _, @Expr.Readable.cast _ target operand =>
      List.forall_mem_append.mpr ⟨operand.writable, target.writable⟩
  | _, .paren inner => inner.writable

/-- The leaves of a readable select item can be written. -/
theorem SelectItem.Readable.writable :
    ∀ {item : SelectItem}, item.Readable → ∀ leaf ∈ item.leaves, leaf.Writable
  | _, .wildcard _ valid =>
      List.forall_mem_append.mpr ⟨writable_names valid, List.forall_mem_nil _⟩
  | _, .value expr valid => List.forall_mem_append.mpr ⟨expr.writable, writable_alias valid⟩

/-- The leaves of what matches the rows of a join can be written, if it is readable. -/
theorem JoinConstraint.Readable.writable : ∀ {free : Bool} {constraint : JoinConstraint},
    constraint.Readable free → ∀ leaf ∈ constraint.leaves, leaf.Writable
  | _, _, .on condition => condition.writable
  | _, _, .using _ valid => writable_names valid
  | _, _, .none => List.forall_mem_nil _

/-- The leaves of a readable table can be written. -/
theorem TableRef.Readable.writable :
    ∀ {table : TableRef}, table.Readable → ∀ leaf ∈ table.leaves, leaf.Writable
  | _, .table valid validAlias =>
      List.forall_mem_append.mpr ⟨valid.writable, writable_alias validAlias⟩
  | _, .subquery query valid =>
      List.forall_mem_append.mpr ⟨query.writable, List.forall_mem_singleton.mpr valid⟩
  | _, .join left right _ constraint => List.forall_mem_append.mpr
      ⟨left.writable, List.forall_mem_append.mpr ⟨right.writable, constraint.writable⟩⟩
  | _, .nested inner => inner.writable

/-- The leaves of a readable specification without sort keys and offset can be written. -/
theorem QuerySpec.Readable.writable : ∀ {spec : QuerySpec}, spec.Readable → spec.keys = [] →
    spec.offset = none → ∀ leaf ∈ spec.leaves, leaf.Writable
  | ⟨_, _, items, _, _, _, _, _, _⟩, .mk top _ readable _ tables condition groups having, rfl,
      rfl => by
      have list : ∀ leaf ∈ SelectItem.leavesList items, leaf.Writable := by
        by_cases everything : items = [.unnamed (.wildcard [])]
        · rw [everything]
          exact List.forall_mem_nil _
        · exact SelectItem.forall_leavesList.mpr fun item mem =>
            (readable everything item mem).writable
      refine List.forall_mem_append.mpr ⟨top.writable, List.forall_mem_append.mpr ⟨list, ?_⟩⟩
      refine List.forall_mem_append.mpr ⟨TableRef.forall_leavesList.mpr fun table mem =>
        (tables table mem).writable, List.forall_mem_append.mpr ⟨?_, ?_⟩⟩
      · exact Expr.forall_leavesOption.mpr fun expr mem => (condition expr mem).writable
      refine List.forall_mem_append.mpr ⟨Expr.forall_leavesList.mpr fun expr mem =>
        (groups expr mem).writable, List.forall_mem_append.mpr ⟨?_, List.forall_mem_nil _⟩⟩
      exact Expr.forall_leavesOption.mpr fun expr mem => (having expr mem).writable

/-- The leaves of a readable body can be written. -/
theorem QueryBody.Readable.writable :
    ∀ {body : QueryBody}, body.Readable → ∀ leaf ∈ body.leaves, leaf.Writable
  | _, .spec spec noKeys noOffset => spec.writable noKeys noOffset
  | _, .setOperation left _ right _ => List.forall_mem_append.mpr ⟨left.writable, right.writable⟩
  | _, .nested query => query.writable

/-- The leaves of a readable named query can be written. -/
theorem CommonTable.Readable.writable :
    ∀ {table : CommonTable}, table.Readable → ∀ leaf ∈ table.leaves, leaf.Writable
  | ⟨_, _, _⟩, .mk valid validColumns query => List.forall_mem_cons.mpr
      ⟨valid, List.forall_mem_append.mpr ⟨writable_names validColumns, query.writable⟩⟩

/-- The leaves of a readable query can be written. -/
theorem Query.Readable.writable :
    ∀ {query : Query}, query.Readable → ∀ leaf ∈ query.leaves, leaf.Writable
  | _, .mk tables body keys offset => by
      rw [leaves_assembleQuery body.plain]
      refine List.forall_mem_append.mpr ⟨CommonTable.forall_leavesList.mpr fun table mem =>
        (tables table mem).writable, List.forall_mem_append.mpr ⟨body.writable, ?_⟩⟩
      exact List.forall_mem_append.mpr
        ⟨SortKey.forall_leavesList.mpr fun key mem => (keys key mem).writable, offset.writable⟩

end

end Adql
