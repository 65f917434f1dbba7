import Adql.Tree

/-!
# Rules of the grammar

The rules that parse the parts of a query, what each of them yields, and the names by which
diagnostics list the rules that were active.
-/

namespace Adql

/-- The name of a rule. -/
inductive RuleName
  | query | queryBody | queryTerm | querySpec
  | selectList | selectItem | qualifiedWildcard | derivedColumn | aliasName
  | tableReference | tablePrimary | derivedTable | nestedTable
  | commonTable | sortKey
  | expression | parenthesized | scalarSubquery | exists
  | aggregate | functionCall | geometry | case | cast | dataType
  deriving DecidableEq

/-- How diagnostics spell the name of a rule. -/
def RuleName.spelling : RuleName → String
  | .query => "query"
  | .queryBody => "query_body"
  | .queryTerm => "query_term"
  | .querySpec => "query_spec"
  | .selectList => "select_list"
  | .selectItem => "select_item"
  | .qualifiedWildcard => "qualified_wildcard"
  | .derivedColumn => "derived_column"
  | .aliasName => "alias"
  | .tableReference => "table_reference"
  | .tablePrimary => "table_primary"
  | .derivedTable => "derived_table"
  | .nestedTable => "nested_table"
  | .commonTable => "common_table_expr"
  | .sortKey => "sort_key"
  | .expression => "expression"
  | .parenthesized => "parenthesized_expression"
  | .scalarSubquery => "scalar_subquery"
  | .exists => "exists"
  | .aggregate => "aggregate"
  | .functionCall => "function_call"
  | .geometry => "geometry"
  | .case => "case"
  | .cast => "cast"
  | .dataType => "data_type"

/-- A rule.  Each application of a rule is one level of nesting. -/
inductive Rule
  | query | queryBody | queryTerm | querySpec
  | selectList | selectItem | qualifiedWildcard | derivedColumn | aliasName
  | tableReference | tablePrimary | derivedTable | nestedTable
  | commonTable | sortKey
  | expression
  /-- Operands joined by the operators that bind at a level or tighter. -/
  | operators (minLevel : Nat)
  | parenthesized
  /-- A parenthesized expression, tried as one of two alternatives. -/
  | parenthesizedTrial
  | scalarSubquery
  /-- A scalar subquery, tried as one of two alternatives. -/
  | subqueryTrial
  | exists
  | aggregate | functionCall
  | geometry (function : Geometry)
  | case | cast | dataType

namespace Rule

/-- The name under which a rule is listed; a run of operators is not listed, nor counted. -/
def name? : Rule → Option RuleName
  | .query => some .query
  | .queryBody => some .queryBody
  | .queryTerm => some .queryTerm
  | .querySpec => some .querySpec
  | .selectList => some .selectList
  | .selectItem => some .selectItem
  | .qualifiedWildcard => some .qualifiedWildcard
  | .derivedColumn => some .derivedColumn
  | .aliasName => some .aliasName
  | .tableReference => some .tableReference
  | .tablePrimary => some .tablePrimary
  | .derivedTable => some .derivedTable
  | .nestedTable => some .nestedTable
  | .commonTable => some .commonTable
  | .sortKey => some .sortKey
  | .expression => some .expression
  | .operators _ => none
  | .parenthesized | .parenthesizedTrial => some .parenthesized
  | .scalarSubquery | .subqueryTrial => some .scalarSubquery
  | .exists => some .exists
  | .aggregate => some .aggregate
  | .functionCall => some .functionCall
  | .geometry _ => some .geometry
  | .case => some .case
  | .cast => some .cast
  | .dataType => some .dataType

/-- What a rule yields. -/
@[reducible] def Result : Rule → Type
  | .query => Query
  | .queryBody | .queryTerm => QueryBody
  | .querySpec => QuerySpec
  | .selectList => List SelectItem
  | .selectItem | .qualifiedWildcard | .derivedColumn => SelectItem
  | .aliasName => Identifier
  | .tableReference | .tablePrimary | .derivedTable | .nestedTable => TableRef
  | .commonTable => CommonTable
  | .sortKey => SortKey
  | .expression | .operators _ | .parenthesized | .parenthesizedTrial | .scalarSubquery
  | .subqueryTrial | .exists | .aggregate | .functionCall | .geometry _ | .case | .cast => Expr
  | .dataType => DataType

/-- Does the rule open a query inside the ones that are open? -/
def opensQuery : Rule → Bool
  | .query => true
  | _ => false

end Rule

end Adql
