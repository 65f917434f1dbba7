import Adql.Proofs.Queries.Joins
import Adql.Proofs.Queries.SetOperations
import Adql.Proofs.RoundTrip.Parses
import Adql.Proofs.RoundTrip.Printing

/-!
# Printed trees of set operations and joins

The printed text of a tree of set operations or joins is read up to its end, and the tree that is read
is the printed one, up to parentheses (`printed_operations`).  The parentheses that are read are those
of the tree and those that the printer adds.
-/

namespace Adql

open Adql.Grammar

/-- The text of selections that are joined by set operators is read up to the end as the body, with a
node for each pair of parentheses that the printer adds. -/
theorem QueryBody.OfSelections.parses {body : QueryBody} (h : body.OfSelections) : ∃ tokens,
    tokenize body.text = .ok tokens ∧ AppliesTo .queryBody .adql tokens body.parenthesized := by
  obtain ⟨depth, operand⟩ := h.isOperand
  refine AppliesTo.of_prints body.prints h.spelled fun allowance (enough : depth + 1 ≤ allowance) => ?_
  obtain ⟨less, rfl⟩ : ∃ less, allowance = less + 1 := ⟨allowance - 1, by omega⟩
  have read : Reads (apply true (less + 1) .queryBody) (body.words true ++ [])
      body.parenthesized [] :=
    (operand.isRead less (by omega)).queryBody (by decide)
  rwa [List.append_nil] at read

/-- The text of joined tables is read up to the end as the tables, with a node for each pair of
parentheses that the printer adds. -/
theorem TableRef.OfJoins.parses {table : TableRef} (h : table.OfJoins) : ∃ tokens,
    tokenize table.text = .ok tokens ∧
      AppliesTo .tableReference .adql tokens table.parenthesized := by
  obtain ⟨depth, isRead⟩ := h.isRead
  refine AppliesTo.of_prints table.prints h.spelled
    fun allowance (enough : depth + 1 ≤ allowance) => ?_
  obtain ⟨less, rfl⟩ : ∃ less, allowance = less + 1 := ⟨allowance - 1, by omega⟩
  have read : Reads (apply true (less + 1) .tableReference) (table.words true ++ [])
      table.parenthesized [] :=
    (isRead less (by omega)).tableReference (by decide)
  rwa [List.append_nil] at read

/-- The printed text of a tree of set operations over selections is read up to the end as the body of a
query, and that of a tree of joins over named tables as a table.  Without the nodes for parentheses, the
tree that is read is the tree that was printed. -/
theorem printed_operations :
    (∀ body : QueryBody, body.OfSelections → ∃ tokens tree, tokenize body.text = .ok tokens ∧
      AppliesTo .queryBody .adql tokens tree ∧ tree.unnested = body.unnested) ∧
    ∀ table : TableRef, table.OfJoins → ∃ tokens tree, tokenize table.text = .ok tokens ∧
      AppliesTo .tableReference .adql tokens tree ∧ tree.unnested = table.unnested := by
  refine ⟨fun body selections => ?_, fun table joins => ?_⟩
  · obtain ⟨tokens, cut, applies⟩ := selections.parses
    exact ⟨tokens, body.parenthesized, cut, applies, selections.unnested_parenthesized⟩
  · obtain ⟨tokens, cut, applies⟩ := joins.parses
    exact ⟨tokens, table.parenthesized, cut, applies, joins.unnested_parenthesized⟩

/-- The specification `SELECT name FROM t`. -/
def selection (name : String) : QueryBody :=
  .spec ⟨false, none, [.unnamed (.simpleColumn name)], [.simpleTable "t"], none, [], none, [], none⟩

/-- A difference of a selection and a union, in which an intersection has a union on its left. -/
def nestedUnions : QueryBody :=
  .setOperation .except false (selection "a")
    (.setOperation .union true (selection "b")
      (.setOperation .intersect false (.setOperation .union false (selection "c") (selection "a"))
        (selection "b")))

/-- A table with a natural join of two tables on its right. -/
def nestedJoins : TableRef :=
  .join (.simpleTable "r") .left false
    (.join (.simpleTable "s") .inner true (.simpleTable "t") .none)
    (.on (.binary (.tableColumn "r" "a") .eq (.tableColumn "s" "a")))

/-- The printer adds the parentheses that keep the grouping of unions and joins on the right. -/
theorem printed_operations_nested :
    nestedUnions.text = "SELECT a FROM t EXCEPT (SELECT b FROM t UNION ALL " ++
      "(SELECT c FROM t UNION SELECT a FROM t) INTERSECT SELECT b FROM t)" ∧
    nestedJoins.text = "r LEFT OUTER JOIN (s NATURAL JOIN t) ON r.a = s.a" ∧
    nestedUnions.OfSelections ∧ nestedJoins.OfJoins ∧
    (∃ tokens tree, tokenize nestedUnions.text = .ok tokens ∧
      AppliesTo .queryBody .adql tokens tree ∧ tree.unnested = nestedUnions.unnested) ∧
    ∃ tokens tree, tokenize nestedJoins.text = .ok tokens ∧
      AppliesTo .tableReference .adql tokens tree ∧ tree.unnested = nestedJoins.unnested := by
  have plain : ∀ name ∈ ["a", "b", "c", "r", "s", "t"], QualifiedName.Valid ⟨[], .regular name⟩ := by
    decide +kernel
  have table (name : String) (h : name ∈ ["a", "b", "c", "r", "s", "t"]) :
      (TableRef.simpleTable name).OfJoins :=
    .named ⟨plain name h, nofun⟩
  have select (name : String) (h : name ∈ ["a", "b", "c", "r", "s", "t"]) :
      (selection name).OfSelections :=
    .spec ⟨List.cons_ne_nil _ _, List.forall_mem_singleton.mpr ⟨plain name h, nofun⟩,
      ⟨plain "t" (by simp), nofun⟩⟩
  have column : ∀ name ∈ ["r", "s"], QualifiedName.Valid ⟨[.regular name], .regular "a"⟩ := by
    decide +kernel
  have a := select "a" (by simp)
  have b := select "b" (by simp)
  have c := select "c" (by simp)
  have unions : nestedUnions.OfSelections :=
    .setOperation .except false a (.setOperation .union true b
      (.setOperation .intersect false (.setOperation .union false c a) b))
  have joins : nestedJoins.OfJoins :=
    .join (table "r" (by simp)) (.join (table "s" (by simp)) (table "t" (by simp)) (.natural nofun))
      (.comparison .eq nofun (column "r" (by simp)) (column "s" (by simp)))
  exact ⟨by decide +kernel, by decide +kernel, unions, joins,
    printed_operations.1 nestedUnions unions, printed_operations.2 nestedJoins joins⟩

end Adql
