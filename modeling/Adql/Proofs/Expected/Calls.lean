import Adql.Proofs.Expected.Rules

/-!
# Calls, case distinctions and conversions

The rules for operands that start with a word of their own are helpful.  Some of them look for the word
behind an optional part before they read the part, and look for it again behind the part
(`Ready.checked_bind`).
-/

namespace Adql

open Adql.Parser Adql.Grammar

variable {α β : Type}

/-- A choice by a word that is there may be followed by something. -/
theorem check_bind_assoc {kind : TokenKind} {p q : Parser α} {f : α → Parser β} :
    (check kind >>= fun there => if there = true then p else q) >>= f =
      check kind >>= fun there => if there = true then p >>= f else q >>= f := by
  simp only [bind_assoc, ite_bind]

section

variable {F G : Set TokenKind} {size rank n : Nat} {kind : TokenKind}

/-- A part that is missing if the word behind it comes first. -/
theorem Ready.checked_bind {a : α} {q : Parser α} {r : α → Parser β} (spelled : kind.word.Spelled)
    (hq : Helpful size {kind} q) (hr : ∀ a, Ready (size - 1) G F (r a)) :
    Ready size {kind} F ((check kind >>= fun there => if there = true then Pure.pure a else q) >>=
      fun a => expect kind >>= fun _ => r a) := by
  have next (a : α) : Ready size {kind} F (expect kind >>= fun _ => r a) := .expect_bind spelled (hr a)
  have offers : Offers F (expect kind >>= fun _ => r a) [] kind := by
    rw [expect_bind_eq]
    exact (Offers.advance_bind (hr a).closes spelled).of_reads fun behind b there final reads =>
      (Reads.check_true there).bind reads
  rw [check_bind_assoc]
  exact ⟨.check_bind (fun word front _ few => (next a).honest (word :: front) few) (next a).beyond offers
    (.expect_bind spelled.noEnd (hr a).beyond) (hq.bind next), .check_found offers rfl⟩

/-- A part that is missing if the reserved word behind it comes first. -/
theorem Ready.checkedWord_bind {keyword : Keyword} {a : α} {q : Parser α} {r : α → Parser β}
    (hq : Helpful size {.keyword keyword} q) (hr : ∀ a, Ready (size - 1) G F (r a)) :
    Ready size {.keyword keyword} F
      ((checkWord keyword >>= fun there => if there = true then Pure.pure a else q) >>=
        fun a => expectWord keyword >>= fun _ => r a) := by
  have same (a : α) : (expectWord keyword >>= fun _ => r a) =
      (expect (.keyword keyword) >>= fun _ => r a) := by
    unfold expectWord
    rw [bind_assoc]
    rfl
  rw [funext same]
  exact .checked_bind rfl hq hr

variable (h : HelpfulRules size rank n)

include h

/-! ### Calls -/

/-- A call. -/
theorem ready_functionCall : Ready size {.identifier} F (functionCall (Grammar.apply true n)) := by
  have closing : TokenKind.rightParen.word.Spelled := rfl
  have some : Ready (size - 1) {.identifier} {.rightParen} (expressions (Grammar.apply true n)) :=
    ready_expressions h (singleton_subset_runEnds rfl 0) nofun
  have arguments (name : Identifier) : Ready (size - 1) {.rightParen} F (do
      let arguments ← callArguments (Grammar.apply true n)
      let _ ← expect .rightParen
      pure (Expr.call name arguments false)) :=
    .checked_bind closing some.toHelpful fun _ => .done _
  exact Ready.identifier.bind fun name => .expect_bind rfl (arguments name)

/-- The argument of an aggregate function. -/
theorem ready_aggregateArgument (word : Keyword) :
    Ready (size - 1) {.identifier} {.rightParen} (aggregateArgument (Grammar.apply true n) word) := by
  have less : size - 1 - 1 ≤ size - 1 := Nat.sub_le _ 1
  have argument (distinct : Bool) : Ready (size - 1) {.identifier} {.rightParen} (do
      pure (← Grammar.apply true n .expression, distinct)) :=
    (h.expression rfl).bind fun _ => .pure subset_rfl _
  have rest : Ready (size - 1) {.identifier} {.rightParen} (do
      if ← eatWord .DISTINCT then
        return (← Grammar.apply true n .expression, true)
      let _ ← eatWord .ALL
      return (← Grammar.apply true n .expression, false)) :=
    .eat_missed rfl ((argument true).of_le less)
      (.eat_missed rfl ((argument false).of_le less) (argument false) nofun) nofun
  unfold aggregateArgument
  split
  · exact .eat_missed rfl (.pure subset_rfl _) rest nofun
  · exact rest

/-- The rest of a call of an aggregate function. -/
theorem ready_aggregateCall (word : Keyword) : Ready (size - 1) {.leftParen} F (do
    let _ ← expect .leftParen
    let (argument, distinct) ← aggregateArgument (Grammar.apply true n) word
    let _ ← expect .rightParen
    pure (Expr.call (.regular word.spelling) [argument] distinct)) :=
  .expect_bind rfl (((ready_aggregateArgument h word).of_le (Nat.sub_le _ 1)).bind fun _ =>
    .expect_bind rfl (.done _))

/-- A call of an aggregate function, in front of a word. -/
theorem serves_aggregate (word : Word) (front : List Word) (few : front.length + 1 < size) :
    ∃ outcome, Honest Set.univ (aggregate (Grammar.apply true n)) (word :: front) outcome := by
  have told {keyword? : Option Keyword} (token : Token) (same : token.word = word)
      (found : word.token.keyword? = keyword?) : token.keyword? = keyword? :=
    (Token.Alike.of_word (same.trans (Word.word_token word).symm)).keyword.trans found
  cases found : word.token.keyword? with
  | none =>
    refine ⟨none, .current_bind (q := fail) (fun token same => ?_) (.fail _)⟩
    rw [told token same found]
  | some keyword =>
    obtain ⟨outcome, honest⟩ := (ready_aggregateCall (F := Set.univ) h keyword).honest front (by omega)
    refine ⟨outcome, .current_bind (fun token same => ?_) honest.advance_bind⟩
    rw [told token same found]

/-- One more argument of a geometry function. -/
theorem helpful_geometryStep (function : Geometry) (arguments : Array Expr) :
    Helpful (size - 1) Set.univ (geometryStep (Grammar.apply true n) function arguments) := by
  have argument : Helpful (size - 1) {.comma, .rightParen} (Grammar.apply true n .expression) :=
    (h.readyLater .expression rfl).toHelpful.mono
      (Set.insert_subset (mem_runEnds_of_ends rfl 0) (singleton_subset_runEnds rfl 0))
  refine argument.bind fun argument => ?_
  have last : Ready (size - 1) {.rightParen} Set.univ (do
      let _ ← expect .rightParen
      return Step.done (arguments.push argument)) := .expect_bind rfl (.done _)
  dsimp only
  split
  · exact Ready.mono (.expect_bind rfl (.done _)) (Set.singleton_subset_iff.mpr (Set.mem_insert _ _))
      subset_rfl
  · refine Ready.mono ?_ (Set.subset_insert TokenKind.comma _) subset_rfl
    split
    · exact .eat_missed rfl (.done _) last nofun
    · exact last

/-- A call of a geometry function, in front of a word. -/
theorem serves_geometry (function : Geometry) (word : Word) (front : List Word)
    (few : front.length + 1 < size) :
    ∃ outcome, Honest Set.univ (geometryCall (Grammar.apply true n) function) (word :: front)
      outcome := by
  have closing : firstKind [TokenKind.rightParen.word] = .rightParen := rfl
  have arguments (arguments : Array Expr) : Ready (size - 1) {.identifier} Set.univ
      (iterate (geometryStep (Grammar.apply true n) function) arguments) := by
    refine ⟨.iterate (fun arguments => nearby.rel_geometryStep h.nearby function arguments)
      (fun _ _ _ _ => ((apply_carries closing n).onExpressions.geometryStep function).shorter) subset_rfl
      (fun arguments => ?_) (helpful_geometryStep h function) arguments, ?_⟩
    · exact (closes_geometrySteps (h.closes .expression) function arguments).mono
        (Set.subset_univ _) subset_rfl
    · exact closes_geometrySteps (h.closes .expression) function arguments
  have call : Ready (size - 1) {.leftParen} Set.univ (do
      let _ ← expect .leftParen
      let arguments ← iterate (geometryStep (Grammar.apply true n) function) #[]
      pure (Expr.geometry function arguments.toList)) :=
    .expect_bind rfl (((arguments #[]).of_le (Nat.sub_le _ 1)).bind fun _ => .done _)
  obtain ⟨outcome, honest⟩ := call.honest front (by omega)
  exact ⟨outcome, honest.advance_bind⟩

/-! ### Case distinctions -/

/-- One branch of a case distinction. -/
theorem helpful_branchStep (branches : Array Branch) :
    Helpful (size - 1) {.identifier, .keyword .ELSE, .keyword .END}
      (branchStep (Grammar.apply true n) branches) := by
  have less : size - 1 - 1 ≤ size - 1 := Nat.sub_le _ 1
  have next (condition result : Expr) :
      Ready (size - 1) {.keyword .WHEN} {.identifier, .keyword .ELSE, .keyword .END} (do
        if ← eatWord .WHEN then
          pure (Step.more (branches.push ⟨condition, result⟩))
        else
          pure (Step.done (branches.push ⟨condition, result⟩))) :=
    .eat_found rfl (.pure subset_rfl _) (.pure _)
  exact (h.expression rfl).toHelpful.bind fun condition => .expectWord_bind
    (((h.expression rfl).of_le less).bind fun result => (next condition result).of_le less)

/-- A case distinction. -/
theorem ready_caseDistinction :
    Ready size {.keyword .CASE} F (caseDistinction (Grammar.apply true n)) := by
  have closing : firstKind [TokenKind.rightParen.word] = .rightParen := rfl
  have less : size - 1 - 1 ≤ size - 1 := Nat.sub_le _ 1
  have branches : Ready (size - 1) {.identifier} {.keyword .ELSE, .keyword .END}
      (iterate (branchStep (Grammar.apply true n)) #[]) := by
    refine ⟨.iterate (fun branches => nearby.rel_branchStep h.nearby branches)
      (fun _ _ _ _ => ((apply_carries closing n).onExpressions.branchStep).shorter)
      (Set.subset_insert _ _) (fun branches => ?_) (helpful_branchStep h) #[], ?_⟩
    · exact (closes_branchSteps (h.closes .expression) branches).mono
        (Set.singleton_subset_iff.mpr (Set.mem_insert _ _)) subset_rfl
    · exact closes_branchSteps (h.closes .expression) #[]
  have ends (subject : Option Expr) (branches : Array Branch) :
      Ready (size - 1) {.keyword .ELSE, .keyword .END} F (do
        let otherwise ← afterWord .ELSE none (some <$> Grammar.apply true n .expression)
        expectWord .END
        pure (Expr.case subject branches.toList otherwise)) := by
    have otherwise : Ready (size - 1) {.keyword .END} {.keyword .END}
        (afterWord .ELSE none (some <$> Grammar.apply true n .expression)) :=
      .afterWord (.map ((h.expression rfl).of_le less)) nofun
    exact (otherwise.mono (Set.subset_insert _ _) subset_rfl).bind fun _ => .expectWord_bind (.done _)
  have cases (subject : Option Expr) := (branches.bind (ends subject)).of_le less
  exact .expectWord_bind (.checkedWord_bind (h.expression rfl).toHelpful.map cases)

/-- A conversion. -/
theorem ready_conversion : Ready size {.keyword .CAST} F (conversion (Grammar.apply true n)) := by
  have less : size - 1 - 1 ≤ size - 1 := Nat.sub_le _ 1
  have target : Ready (size - 1) {.keyword .INTEGER} {.rightParen} (Grammar.apply true n .dataType) :=
    h.readyLater .dataType rfl
  have inner : Ready (size - 1) {.identifier} {.rightParen} (do
      let operand ← Grammar.apply true n .expression
      expectWord .AS
      let target ← Grammar.apply true n .dataType
      pure (Expr.cast operand target)) :=
    (h.expression rfl).bind fun _ => .expectWord_bind ((target.of_le less).bind fun _ =>
      .pure subset_rfl _)
  exact .expectWord_bind (.inParentheses (inner.of_le less))

end

end Adql
