/-!
# Reserved words

The reserved words of the language, in the order in which diagnostics list them.  A reserved word
is recognized in any mixture of upper and lower case of the ASCII letters and never serves as an
identifier.
-/

namespace Adql

/-- A reserved word. -/
inductive Keyword
  | SELECT | FROM | WHERE | GROUP | BY | HAVING | ORDER | OFFSET | TOP | DISTINCT | ALL | AS
  | ASC | DESC | WITH | JOIN | INNER | LEFT | RIGHT | FULL | OUTER | CROSS | NATURAL | ON
  | USING | UNION | INTERSECT | EXCEPT | AND | OR | NOT | IN | BETWEEN | LIKE | ILIKE | ESCAPE
  | IS | NULL | TRUE | FALSE | EXISTS | CASE | WHEN | THEN | ELSE | END | CAST | COUNT | SUM
  | AVG | MIN | MAX | SMALLINT | INTEGER | BIGINT | REAL | DOUBLE | PRECISION | CHAR | VARCHAR
  | TIMESTAMP
  deriving DecidableEq

namespace Keyword

/-- All reserved words in their order. -/
def all : List Keyword :=
  [.SELECT, .FROM, .WHERE, .GROUP, .BY, .HAVING, .ORDER, .OFFSET, .TOP, .DISTINCT, .ALL, .AS,
   .ASC, .DESC, .WITH, .JOIN, .INNER, .LEFT, .RIGHT, .FULL, .OUTER, .CROSS, .NATURAL, .ON,
   .USING, .UNION, .INTERSECT, .EXCEPT, .AND, .OR, .NOT, .IN, .BETWEEN, .LIKE, .ILIKE, .ESCAPE,
   .IS, .NULL, .TRUE, .FALSE, .EXISTS, .CASE, .WHEN, .THEN, .ELSE, .END, .CAST, .COUNT, .SUM,
   .AVG, .MIN, .MAX, .SMALLINT, .INTEGER, .BIGINT, .REAL, .DOUBLE, .PRECISION, .CHAR, .VARCHAR,
   .TIMESTAMP]

/-- The upper-case spelling of the reserved word. -/
def spelling : Keyword → String
  | .SELECT => "SELECT"
  | .FROM => "FROM"
  | .WHERE => "WHERE"
  | .GROUP => "GROUP"
  | .BY => "BY"
  | .HAVING => "HAVING"
  | .ORDER => "ORDER"
  | .OFFSET => "OFFSET"
  | .TOP => "TOP"
  | .DISTINCT => "DISTINCT"
  | .ALL => "ALL"
  | .AS => "AS"
  | .ASC => "ASC"
  | .DESC => "DESC"
  | .WITH => "WITH"
  | .JOIN => "JOIN"
  | .INNER => "INNER"
  | .LEFT => "LEFT"
  | .RIGHT => "RIGHT"
  | .FULL => "FULL"
  | .OUTER => "OUTER"
  | .CROSS => "CROSS"
  | .NATURAL => "NATURAL"
  | .ON => "ON"
  | .USING => "USING"
  | .UNION => "UNION"
  | .INTERSECT => "INTERSECT"
  | .EXCEPT => "EXCEPT"
  | .AND => "AND"
  | .OR => "OR"
  | .NOT => "NOT"
  | .IN => "IN"
  | .BETWEEN => "BETWEEN"
  | .LIKE => "LIKE"
  | .ILIKE => "ILIKE"
  | .ESCAPE => "ESCAPE"
  | .IS => "IS"
  | .NULL => "NULL"
  | .TRUE => "TRUE"
  | .FALSE => "FALSE"
  | .EXISTS => "EXISTS"
  | .CASE => "CASE"
  | .WHEN => "WHEN"
  | .THEN => "THEN"
  | .ELSE => "ELSE"
  | .END => "END"
  | .CAST => "CAST"
  | .COUNT => "COUNT"
  | .SUM => "SUM"
  | .AVG => "AVG"
  | .MIN => "MIN"
  | .MAX => "MAX"
  | .SMALLINT => "SMALLINT"
  | .INTEGER => "INTEGER"
  | .BIGINT => "BIGINT"
  | .REAL => "REAL"
  | .DOUBLE => "DOUBLE"
  | .PRECISION => "PRECISION"
  | .CHAR => "CHAR"
  | .VARCHAR => "VARCHAR"
  | .TIMESTAMP => "TIMESTAMP"

/-- The place of the reserved word in the order. -/
def index (keyword : Keyword) : Nat :=
  keyword.ctorIdx

/-- The reserved word that a word spells, in either case of its letters. -/
def ofWord? (word : String) : Option Keyword :=
  let upper := word.toUpper
  all.find? fun keyword => keyword.spelling == upper

/-- Is the reserved word the name of an aggregate function? -/
def isAggregate : Keyword → Bool
  | .COUNT | .SUM | .AVG | .MIN | .MAX => true
  | _ => false

/-- Every reserved word is listed. -/
theorem mem_all (keyword : Keyword) : keyword ∈ all := by
  cases keyword <;> decide

/-- The spelling of a reserved word is in upper case. -/
theorem toUpper_spelling (keyword : Keyword) : keyword.spelling.toUpper = keyword.spelling := by
  have letters : ∀ keyword ∈ all,
      keyword.spelling.toList.map Char.toUpper = keyword.spelling.toList := by
    decide +kernel
  rw [← String.toList_inj, String.toUpper, String.toList_map]
  exact letters keyword keyword.mem_all

/-- A reserved word is recognized by its spelling. -/
theorem ofWord?_spelling (keyword : Keyword) : ofWord? keyword.spelling = some keyword := by
  have different : (all.map spelling).Nodup := by decide +kernel
  obtain ⟨before, after, split⟩ := List.append_of_mem keyword.mem_all
  rw [split, List.map_append, List.map_cons] at different
  obtain ⟨_, _, others⟩ := List.pairwise_append.mp different
  rw [ofWord?, toUpper_spelling]
  refine List.find?_eq_some_iff_append.mpr ⟨by simp, before, after, split, fun other mem => ?_⟩
  have := others other.spelling (List.mem_map_of_mem mem) keyword.spelling List.mem_cons_self
  simpa using this

end Keyword

end Adql
