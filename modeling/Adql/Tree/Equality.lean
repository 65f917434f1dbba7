import Adql.Tree.Datum

/-!
# Equal trees

Two trees are the same when their descriptions are.  Real numbers are compared as numbers, so the
two zeros are the same and what is not a number differs from itself.
-/

namespace Adql

mutual

/-- Do two described values have the same parts? -/
def Datum.same : Datum → Datum → Bool
  | .boolean a, .boolean b => a == b
  | .integer a, .integer b => a == b
  | .real a, .real b => a.same b
  | .string a, .string b => a == b
  | .absent, .absent => true
  | .present a, .present b => a.same b
  | .list as, .list bs => Datum.sameList as bs
  | .pair a₁ a₂, .pair b₁ b₂ => a₁.same b₁ && a₂.same b₂
  | .record s as, .record t bs => s == t && Datum.sameFields as bs
  | .choice s, .choice t => s == t
  | .choiceOf s a, .choiceOf t b => s == t && a.same b
  | .choiceRecord s as, .choiceRecord t bs => s == t && Datum.sameFields as bs
  | _, _ => false

/-- Do two lists hold the same described values? -/
def Datum.sameList : List Datum → List Datum → Bool
  | [], [] => true
  | a :: as, b :: bs => a.same b && Datum.sameList as bs
  | _, _ => false

/-- Are two named parts the same? -/
def Datum.sameField : String × Datum → String × Datum → Bool
  | (s, a), (t, b) => s == t && a.same b

/-- Are the named parts of two values the same? -/
def Datum.sameFields : List (String × Datum) → List (String × Datum) → Bool
  | [], [] => true
  | a :: as, b :: bs => Datum.sameField a b && Datum.sameFields as bs
  | _, _ => false

end

/-- Are two expressions the same tree? -/
def Expr.same (first second : Expr) : Bool :=
  first.datum.same second.datum

/-- Are two queries the same tree? -/
def Query.same (first second : Query) : Bool :=
  first.datum.same second.datum

end Adql
