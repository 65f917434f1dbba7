import Mathlib.Data.Nat.Find
import Adql.Proofs.Composition.Refusals
import Adql.Proofs.Expressions.Calls

/-!
# Calls of geometry functions

Each geometry function takes certain numbers of arguments (`Geometry.takes`).  A call with such a
number of arguments is read, whatever expressions they are (`Argument.reads_call`).  Any other call is
refused behind the argument where it goes wrong: where one more argument is needed, a comma is
expected and no parenthesis (`Argument.refuses_call_missing`), and where no more arguments are taken, a
parenthesis and no comma (`Argument.refuses_call_surplus`).
-/

namespace Adql

open Adql.Parser Adql.Grammar

/-! ### Numbers of arguments -/

namespace Geometry

/-- Does the function take so many arguments? -/
def takes : Geometry → Nat → Bool
  | .point, count => 2 ≤ count && count ≤ 3
  | .circle, count => 2 ≤ count && count ≤ 4
  | .box, count => 3 ≤ count && count ≤ 5
  | .polygon, count => 3 ≤ count
  | .region, count | .area, count | .centroid, count | .coord1, count | .coord2, count
  | .coordsys, count => count = 1
  | .contains, count | .intersects, count => count = 2
  | .distance, count => count = 2 || count = 4

/-- A call of the function may have as many arguments as the function takes. -/
theorem admits_iff_takes {function : Geometry} {count : Nat} :
    function.Admits count ↔ function.takes count = true := by
  have bounds : function.Admits count ↔ (¬count < function.arity.1 ∧
      ¬(function = .distance ∧ count = 3)) ∧ ∀ most ∈ function.arity.2, count ≤ most := by
    have enough : function.needsMore count = false ↔
        ¬count < function.arity.1 ∧ ¬(function = .distance ∧ count = 3) := by
      simp [needsMore]
    rw [← enough]
    exact ⟨fun h => ⟨h.enough, h.le_most⟩, fun h => ⟨h.1, h.2⟩⟩
  rw [bounds]
  cases function <;> simp [arity, takes] <;> omega

/-- Below a number of arguments that the function takes, another argument is accepted. -/
theorem acceptsMore_of_takes {function : Geometry} {count fewer : Nat}
    (takes : function.takes count = true) (less : fewer < count) :
    function.acceptsMore fewer = true :=
  (admits_iff_takes.mpr takes).acceptsMore less

/-- Below a number of arguments that the function takes, a number that it does not take is too small. -/
theorem needsMore_of_takes {function : Geometry} {count fewer : Nat}
    (takes : function.takes count = true) (less : fewer < count)
    (not : function.takes fewer = false) : function.needsMore fewer = true := by
  refine Bool.not_eq_false _ ▸ fun enough => ?_
  have admits := admits_iff_takes.mpr takes
  have fits : function.Admits fewer :=
    ⟨enough, fun most hmost => Nat.le_of_lt (Nat.lt_of_lt_of_le less (admits.le_most most hmost))⟩
  rw [admits_iff_takes.mp fits] at not
  cases not

/-- Behind the greatest number of arguments that the function takes, no other argument is accepted. -/
theorem acceptsMore_eq_false {function : Geometry} {most : Nat} (takes : function.takes most = true)
    (greatest : ∀ count, function.takes count = true → count ≤ most) :
    function.acceptsMore most = false := by
  unfold acceptsMore
  cases bound : function.arity.2 with
  | none =>
    have more : function.takes (most + 1) = true := by
      cases function with
      | polygon => exact decide_eq_true (Nat.le_succ_of_le (of_decide_eq_true takes))
      | _ => cases bound
    exact absurd (greatest _ more) (Nat.not_succ_le_self most)
  | some top =>
    have reached : function.takes top = true := by
      cases function <;> cases bound <;> rfl
    exact decide_eq_false (Nat.not_lt.mpr (greatest top reached))

/-- What is known as the name of a function is a name. -/
theorem isName_of_ofName? {name : String} {function : Geometry}
    (named : ofName? name = some function) : IsName name := by
  have same : function.spelling = name.toUpper := by simpa using List.find?_some named
  obtain ⟨first, rest, written, starts, continues, unreserved⟩ := function.isName_spelling
  obtain ⟨first, rest, split, starts, continues⟩ :=
    exists_word_of_toUpper (same ▸ written) starts continues
  rw [Keyword.ofWord?, function.toUpper_spelling, same] at unreserved
  exact ⟨first, rest, split, starts, continues, unreserved⟩

/-- If a function takes less than some number of arguments, there is a greatest number that it takes. -/
theorem exists_greatest {function : Geometry} {bound : Nat}
    (fewer : ∀ count, function.takes count = true → count < bound) :
    ∃ most, function.takes most = true ∧ ∀ count, function.takes count = true → count ≤ most := by
  have least : function.takes function.arity.1 = true := by cases function <;> rfl
  refine ⟨Nat.findGreatest (fun count => function.takes count = true) bound, ?_, fun count takes => ?_⟩
  · exact Nat.findGreatest_spec (P := fun count => function.takes count = true)
      (Nat.le_of_lt (fewer _ least)) least
  · exact Nat.le_findGreatest (Nat.le_of_lt (fewer count takes)) takes

end Geometry

/-! ### Arguments -/

/-- An argument: words that are read to the end as an expression where rules may nest so deep. -/
structure Argument (depth : Nat) where
  /-- The words. -/
  words : List Word
  /-- The expression. -/
  tree : Expr
  /-- The words are read as the expression. -/
  reads : Reads (apply true depth .expression) words tree []

/-- The words of a call of a function with the arguments. -/
def callWords (name : String) (rows : List (List Word)) : List Word :=
  ⟨.identifier, name⟩ :: enclosed (separated .comma rows)

/-- Words in a list with commas start with the words of its first rows. -/
theorem separated_append (before : List (List Word)) {rows : List (List Word)} (nonempty : rows ≠ []) :
    separated .comma (before ++ rows) =
      (before.flatMap fun row => row ++ [TokenKind.comma.word]) ++ separated .comma rows := by
  induction before with
  | nil => rfl
  | cons first before ih =>
    obtain ⟨next, others, split⟩ := List.exists_cons_of_ne_nil (List.append_ne_nil_of_right_ne_nil
      before nonempty)
    rw [List.cons_append, split, separated, ← split, ih]
    simp

/-- The words of a call from the name to the end of an argument that has others before it. -/
def callFront (name : String) (before : List (List Word)) (row : List Word) : List Word :=
  ⟨.identifier, name⟩ :: TokenKind.leftParen.word ::
    ((before.flatMap fun row => row ++ [TokenKind.comma.word]) ++ row)

/-- A name, a parenthesis and the arguments, with a comma behind each one but the last, make up the
front of a call. -/
theorem length_callFront (name : String) (before : List (List Word)) (row : List Word) :
    (callFront name before row).length =
      ((before ++ [row]).map (·.length + 1)).foldr (· + ·) 1 := by
  induction before with
  | nil => simp [callFront]
  | cons first before ih =>
    simp only [callFront, List.flatMap_cons, List.cons_append, List.map_cons, List.foldr_cons,
      List.length_cons, List.length_append, List.length_nil] at ih ⊢
    omega

/-- Behind its last argument, a call is closed. -/
theorem callWords_last (name : String) (before : List (List Word)) (row : List Word) :
    callWords name (before ++ [row]) = callFront name before row ++ [TokenKind.rightParen.word] := by
  rw [callWords, enclosed, separated_append before (List.cons_ne_nil row [])]
  simp [callFront, separated]

/-- Behind any other argument, a call goes on with a comma. -/
theorem callWords_inner (name : String) (before : List (List Word)) (row next : List Word)
    (after : List (List Word)) :
    callWords name (before ++ row :: next :: after) = callFront name before row ++
      TokenKind.comma.word :: (separated .comma (next :: after) ++ [TokenKind.rightParen.word]) := by
  rw [callWords, enclosed, separated_append before (List.cons_ne_nil row _)]
  simp [callFront, separated]

namespace Argument

variable {depth allowance : Nat} {function : Geometry} {name : String} {words rest : List Word}
  {wanted found : TokenKind} {mark : Word}

/-- Where rules may nest deeper, an argument is read as well. -/
def deeper (argument : Argument depth) (enough : depth ≤ allowance) : Argument allowance :=
  ⟨argument.words, argument.tree, argument.reads.of_le enough⟩

/-- An argument is read in front of what ends it. -/
theorem reads_behind (argument : Argument depth) (enough : depth ≤ allowance) {behind : List Word}
    (closes : EndsArgument behind) :
    Reads (apply true allowance .expression) (argument.words ++ behind) argument.tree behind :=
  ((argument.reads.of_le enough).argument closes).reads

/-- An argument is passed in front of what ends it. -/
theorem passes (argument : Argument depth) (enough : depth ≤ allowance) {behind : List Word}
    (closes : EndsArgument behind) :
    Passes (apply true allowance .expression) (argument.words ++ behind) argument.tree behind :=
  .argument (argument.reads.of_le enough) closes

/-- A call with as many arguments as the function takes is read. -/
theorem reads_call (named : Geometry.ofName? name = some function)
    (arguments : List (Argument depth)) (takes : function.takes arguments.length = true)
    (enough : depth ≤ allowance) :
    Reads (apply true (allowance + 3) .expression) (callWords name (arguments.map Argument.words))
      (.geometry function (arguments.map Argument.tree)) [] := by
  have list : Reads (iterate (geometryStep (apply true allowance) function) #[])
      (separated .comma (arguments.map Argument.words) ++ [TokenKind.rightParen.word])
      (arguments.map Argument.tree).toArray [] :=
    Expr.reads_geometryArguments (Geometry.admits_iff_takes.mpr takes)
      fun argument _ kind rest mark => argument.reads_behind enough
        mark.symm
  have call : Reads (Grammar.operand true (apply true (allowance + 1)))
      (callWords name (arguments.map Argument.words))
      (.geometry function (arguments.map Argument.tree)) [] :=
    Expr.reads_geometry named list
  exact .apply (.apply (call.bind
    ((Repeats.refl _ []).iterate (reads_operatorStep_done _ (stops_of_ends rfl 0)))))

/-! ### Calls that are refused -/

/-- An argument is passed with the comma behind it, if another argument is accepted. -/
theorem passes_step (argument : Argument depth) (enough : depth ≤ allowance) {values : Array Expr}
    (more : function.acceptsMore (values.size + 1) = true) :
    Passes (geometryStep (apply true allowance) function values)
      (argument.words ++ TokenKind.comma.word :: rest) (.more (values.push argument.tree)) rest := by
  refine (argument.passes enough (.inr rfl)).bind ?_
  rw [← Array.size_push argument.tree] at more
  dsimp only
  rw [more]
  split
  · exact .expect_bind rfl (.pure _ _)
  · exact (Passes.eat_true rfl).bind (.pure _ _)

/-- Behind an argument, a closing parenthesis is refused if another argument is needed. -/
theorem refuses_missing (argument : Argument depth) (enough : depth ≤ allowance)
    {values : Array Expr} (needs : function.needsMore (values.size + 1) = true) :
    Refuses (geometryStep (apply true allowance) function values)
      (argument.words ++ [TokenKind.rightParen.word]) .comma .rightParen
      [TokenKind.rightParen.word] := by
  refine .bind_right (argument.passes enough (.inl rfl)) ?_
  rw [← Array.size_push argument.tree] at needs
  dsimp only
  rw [needs]
  exact (Refuses.expect rfl (by decide) (.inl rfl)).bind_left

/-- Behind an argument, a comma is refused if no other argument is accepted. -/
theorem refuses_surplus (argument : Argument depth) (enough : depth ≤ allowance)
    {values : Array Expr} (complete : function.needsMore (values.size + 1) = false)
    (full : function.acceptsMore (values.size + 1) = false) :
    Refuses (geometryStep (apply true allowance) function values)
      (argument.words ++ TokenKind.comma.word :: rest) .rightParen .comma
      (TokenKind.comma.word :: rest) := by
  refine .bind_right (argument.passes enough (.inr rfl)) ?_
  rw [← Array.size_push argument.tree] at complete full
  dsimp only
  rw [complete, full]
  have refuses : Refuses (expect .rightParen) (TokenKind.comma.word :: rest) .rightParen .comma
      (TokenKind.comma.word :: rest) := .expect rfl (by decide) (.inr rfl)
  exact .bind_right (.pure false _) refuses.bind_left

/-- Behind arguments that are passed, the list of arguments is refused where one is. -/
theorem refuses_repeat (before : List (Argument depth)) (enough : depth ≤ allowance)
    {values : Array Expr}
    (accepts : ∀ count ≤ values.size + before.length, function.acceptsMore count = true)
    (refuses : Refuses (geometryStep (apply true allowance) function
      (values ++ before.map Argument.tree)) words wanted found rest)
    (count : Nat) (more : (((before.map Argument.words).flatMap fun row =>
      row ++ [TokenKind.comma.word]) ++ words).length < count) :
    Refuses (repeatAtMost (geometryStep (apply true allowance) function) count values)
      (((before.map Argument.words).flatMap fun row => row ++ [TokenKind.comma.word]) ++ words)
      wanted found rest := by
  induction before generalizing values count with
  | nil =>
    obtain ⟨count, rfl⟩ : ∃ less, count = less + 1 := ⟨count - 1, by omega⟩
    exact Refuses.bind_left (by simpa using refuses)
  | cons argument before ih =>
    rw [List.length_cons] at accepts
    rw [List.map_cons, List.flatMap_cons, List.append_assoc, List.append_assoc] at more ⊢
    rw [List.length_append, List.length_append, List.length_singleton] at more
    obtain ⟨count, rfl⟩ : ∃ less, count = less + 1 := ⟨count - 1, by omega⟩
    refine .bind_right (argument.passes_step enough (accepts _ (by omega))) ?_
    refine ih (fun count le => accepts count ?_) ?_ count (by omega)
    · rw [Array.size_push] at le
      omega
    · simpa using refuses

/-- A call is refused where its list of arguments is. -/
theorem refuses_expression (named : Geometry.ofName? name = some function)
    (refuses : ∀ count, words.length < count →
      Refuses (repeatAtMost (geometryStep (apply true allowance) function) count #[]) words wanted
        found rest) :
    Refuses (apply true (allowance + 3) .expression)
      (⟨.identifier, name⟩ :: TokenKind.leftParen.word :: words) wanted found rest := by
  have call : Refuses (apply true (allowance + 1) (.geometry function))
      (⟨.identifier, name⟩ :: TokenKind.leftParen.word :: words) wanted found rest := by
    refine .apply (.advance_bind fun _ => .expect_bind rfl (.bind_left (.bind_right (.remaining _) ?_)))
    exact refuses _ (Nat.lt_succ_self _)
  refine .apply (.apply (.bind_left (.bind_right (.currentKind _) (.current_bind fun token same => ?_))))
  have kind : token.kind = .identifier := congrArg Word.kind same
  have known : token.geometryFunction? = some function := by
    rw [(Token.Alike.of_word (show token.word = (Word.mk .identifier name).token.word from
      same)).geometryFunction]
    exact named
  rw [Token.literal?_eq_none (kind ▸ by decide), kind]
  refine .bind_right (.nextKind _) (.current_bind fun token' same' => ?_)
  have known : token'.geometryFunction? = some function := by
    rw [(Token.Alike.of_word (show token'.word = (Word.mk .identifier name).token.word from
      same')).geometryFunction]
    exact named
  rw [known]
  exact call

/-- A call with too few arguments is refused behind the last one. -/
theorem refuses_call_missing (named : Geometry.ofName? name = some function)
    (before : List (Argument depth)) (last : Argument depth) {count : Nat}
    (takes : function.takes count = true) (fewer : before.length + 1 < count)
    (not : function.takes (before.length + 1) = false) (enough : depth ≤ allowance) :
    Refuses (apply true (allowance + 3) .expression)
      (callFront name (before.map Argument.words) last.words ++ [TokenKind.rightParen.word])
      .comma .rightParen [TokenKind.rightParen.word] := by
  rw [callFront, List.cons_append, List.cons_append, List.append_assoc]
  refine refuses_expression named fun bound less => refuses_repeat before enough ?_
    (last.refuses_missing enough ?_) bound less
  · exact fun number le => Geometry.acceptsMore_of_takes takes (by simp at le; omega)
  · simpa using Geometry.needsMore_of_takes takes fewer not

/-- A call with too many arguments is refused behind the last one that the function takes. -/
theorem refuses_call_surplus (named : Geometry.ofName? name = some function)
    (before : List (Argument depth)) (last : Argument depth)
    (takes : function.takes (before.length + 1) = true)
    (greatest : ∀ count, function.takes count = true → count ≤ before.length + 1)
    (enough : depth ≤ allowance) :
    Refuses (apply true (allowance + 3) .expression)
      (callFront name (before.map Argument.words) last.words ++ TokenKind.comma.word :: rest)
      .rightParen .comma (TokenKind.comma.word :: rest) := by
  rw [callFront, List.cons_append, List.cons_append, List.append_assoc]
  refine refuses_expression named fun bound less => refuses_repeat before enough ?_
    (last.refuses_surplus enough ?_ ?_) bound less
  · exact fun number le => Geometry.acceptsMore_of_takes takes (by simp at le; omega)
  · simpa using (Geometry.admits_iff_takes.mpr takes).enough
  · simpa using Geometry.acceptsMore_eq_false takes greatest

end Argument

end Adql
