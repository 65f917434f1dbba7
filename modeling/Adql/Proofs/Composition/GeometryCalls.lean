import Adql.Proofs.Composition.Geometry
import Adql.Proofs.Composition.Statements

/-!
# Texts of calls of geometry functions

Texts that are parsed to the end as expressions are put into the parentheses of a call of a geometry
function, with commas between them (`callText`).  If the function takes as many arguments, the text is
parsed to the end as the call of these expressions.  If it takes more, the parenthesis at the end is
refused, and if it takes fewer, the first comma that is too many (`geometry_call`).  A text that ends
in a line comment hides what follows it, so it is no argument (`IsArgument`).
-/

namespace Adql

open Adql.Parser Adql.Grammar

/-! ### Texts -/

/-- The text of a call of a function. -/
def callText (name : String) (texts : List String) : String :=
  name ++ "(" ++ commaSeparated texts ++ ")"

/-- The position of the token behind so many arguments of a call.  The first argument stands behind the
name and a parenthesis; in front of each of the others there is a comma. -/
def argumentsEnd (texts : List String) (count : Nat) : Nat :=
  ((texts.take count).map tokenCount).foldr (· + ·) 1

/-- The text is parsed to the end as the expression, and does not end in a line comment. -/
structure IsArgument (text : String) (tree : Expr) : Prop where
  /-- Under some settings, the text is parsed so. -/
  parsed : ∃ tokens settings, tokenize text = .ok tokens ∧ settings.precedence = .adql ∧
    settings.ruleBudget = none ∧ (Session.ofTokens tokens settings).Consumes tree
  /-- What follows the text is not taken in by a comment. -/
  closed : endsInLineComment text = false

/-- The text of a call is cut into the words of the call. -/
theorem tokenize_callText {name : String} {texts : List String} {rows : List (List Word)}
    (isName : IsName name) (joins : List.Forall₂ Joins texts rows) :
    ∃ tokens, tokenize (callText name texts) = .ok tokens ∧
      tokens.map Token.word = callWords name rows ++ [endWord] := by
  have named : (Word.mk .identifier name).Legible := .inl isName
  have opens : TokenKind.leftParen.word.Legible := .inl rfl
  have closes : TokenKind.rightParen.word.Legible := .inl rfl
  have last : Cuts [')'] [TokenKind.rightParen.word] := Cuts.word closes (startsAmong_nil _) .nil
  have list := joins_commaSeparated joins _ _ (by simp [endsTokens]) last
  have inner : Cuts ('(' :: ((commaSeparated texts).toList ++ [')'])) (enclosed (separated .comma rows)) :=
    Cuts.word opens trivial list
  have call : Cuts (name.toList ++ '(' :: ((commaSeparated texts).toList ++ [')']))
      (callWords name rows) :=
    Cuts.word named (startsAmong_cons _ (by decide)) inner
  obtain ⟨tokens, cut, written⟩ := call .origin
  refine ⟨tokens, ?_, written⟩
  rw [tokenize, Lexer.ofText]
  simpa [callText] using cut

namespace IsArgument

variable {text : String} {tree : Expr}

/-- The words of an argument are read as the expression. -/
theorem exists_argument (h : IsArgument text tree) :
    ∃ depth, ∃ argument : Argument depth, argument.tree = tree ∧ Joins text argument.words ∧
      tokenCount text = argument.words.length + 1 := by
  obtain ⟨tokens, settings, cut, precedence, unbounded, consumes⟩ := h.parsed
  obtain ⟨words, written, marked⟩ := exists_words_of_tokenize cut
  have faces : (Session.ofTokens tokens settings).strict.Faces words settings.precedence
      (fun word => word.kind ≠ .eof) := Session.faces_ofTokens written marked rfl unbounded
  rw [precedence] at faces
  have yields : (Session.ofTokens tokens settings).Yields .expression tree := consumes
  obtain ⟨after, run, ended, -⟩ := yields.strict (Session.ends_ofTokens tokens settings)
  obtain ⟨rest, hafter, reads⟩ := Reads.of_run faces run
  have nothing : rest = [] := by
    cases rest with
    | nil => rfl
    | cons word rest => exact absurd (hafter.current_kind.symm.trans ended) hafter.sound_head
  subst nothing
  refine ⟨settings.maxDepth, ⟨words, tree, reads _ (Nat.le_refl _)⟩, rfl,
    joins_of_closed cut written h.closed, ?_⟩
  rw [tokenCount_eq cut]
  simpa using congrArg List.length written

/-- Arguments are read where rules may nest as deep as the deepest one of them needs. -/
theorem exists_arguments {texts : List String} {trees : List Expr}
    (h : List.Forall₂ IsArgument texts trees) :
    ∃ depth, ∃ arguments : List (Argument depth), arguments.map Argument.tree = trees ∧
      List.Forall₂ Joins texts (arguments.map Argument.words) ∧
      texts.map tokenCount = arguments.map fun argument => argument.words.length + 1 := by
  induction h with
  | nil => exact ⟨0, [], rfl, .nil, rfl⟩
  | cons first rest ih =>
    obtain ⟨depth, argument, tree, joins, count⟩ := first.exists_argument
    obtain ⟨depth', arguments, trees, joins', counts⟩ := ih
    refine ⟨max depth depth', argument.deeper (Nat.le_max_left _ _) ::
      arguments.map (·.deeper (Nat.le_max_right _ _)), ?_, ?_, ?_⟩
    · simp [Argument.deeper, ← trees, tree]
    · exact .cons joins (by simpa [Argument.deeper] using joins')
    · simp [Argument.deeper, count, counts]

end IsArgument

/-! ### Expressions that are refused -/

namespace Session

variable {session : Session} {position : Nat} {wanted found : TokenKind}

/-- The rule for expressions fails at a position: one kind is expected there, and the kind that is found
there is not. -/
def RefusesAt (session : Session) (position : Nat) (wanted found : TokenKind) : Prop :=
  ∃ failure after, applyRule .expression session = .error failure after ∧ after.errors = #[] ∧
    failure.Wants position wanted found ∧ (session.cursor.tokenAt position).kind = found

/-- A parse fails where it would fail under other limits, unless a limit ends it before. -/
theorem RefusesAt.of_under {other : Settings} (comparable : session.Comparable other)
    (h : (session.under other).RefusesAt position wanted found) :
    session.RefusesAt position wanted found ∨ session.RunsOut := by
  obtain ⟨failure, after', hrun, clean, wants, there⟩ := h
  obtain ⟨_, _, _, run'⟩ | ⟨_, after, run, run'⟩ | exhausts :=
    comparable.agrees_or_exhausts .expression (by rw [hrun]; exact clean)
  · cases hrun.symm.trans run'
  · cases hrun.symm.trans run'
    exact .inl ⟨failure, after, run, clean, wants, there⟩
  · exact .inr exhausts

end Session

/-- The tokens are refused at a position, whatever the settings are besides the precedence table. -/
structure RefusedAt (tokens : List Token) (position : Nat) (wanted found : TokenKind) : Prop where
  /-- Where rules may nest deep enough and are not counted, the tokens are refused. -/
  deep : ∃ depth, ∀ settings : Settings, settings.precedence = .adql →
    settings.ruleBudget = none → depth ≤ settings.maxDepth →
      (Session.ofTokens tokens settings).RefusesAt position wanted found
  /-- Otherwise they are refused as well, unless a limit ends the parse before. -/
  limited : ∀ settings : Settings, settings.precedence = .adql →
    (Session.ofTokens tokens settings).RefusesAt position wanted found ∨
      (Session.ofTokens tokens settings).RunsOut

/-- The tokens of a source are refused where their words are. -/
theorem RefusedAt.of_refuses {source : String} {tokens : List Token} {front rest : List Word}
    {word : Word} {wanted : TokenKind} (cut : tokenize source = .ok tokens)
    (written : tokens.map Token.word = front ++ word :: rest ++ [endWord]) {depth : Nat}
    (refuses : ∀ allowance, depth ≤ allowance → Refuses (apply true allowance .expression)
      (front ++ word :: rest) wanted word.kind (word :: rest)) :
    RefusedAt tokens front.length wanted word.kind := by
  have deep (settings : Settings) (precedence : settings.precedence = .adql)
      (unbounded : settings.ruleBudget = none) (enough : depth ≤ settings.maxDepth) :
      (Session.ofTokens tokens settings).RefusesAt front.length wanted word.kind := by
    let start := Session.ofTokens tokens settings
    have faces : start.strict.Faces (front ++ word :: rest) settings.precedence fun _ => True :=
      Session.faces_ofTokens written (fun _ _ => trivial) rfl unbounded
    rw [precedence] at faces
    have first : start.cursor.position = 0 := TokenCursor.position_ofTokens tokens
    have noNotes : ¬start.NotesAhead := by
      rintro ⟨_, noted, _⟩
      cases noted
    have stands : start.Stands start.cursor.tokens (front ++ word :: rest) :=
      ⟨rfl, faces, noNotes, .ofTokens cut settings⟩
    have whole := stands.position_add_length (by simp)
    obtain ⟨failure, after, run, clean, wants⟩ := refuses _ enough _ start stands
    have position : start.cursor.tokens.size - (word :: rest).length = front.length := by
      rw [← whole, first, List.length_append]
      omega
    rw [position] at wants
    refine ⟨failure, after, run, clean, wants, ?_⟩
    have there := faces.peek_word front.length
    rw [List.getElem?_append_right (Nat.le_refl _), Nat.sub_self, TokenCursor.peek,
      show start.strict.cursor.position = 0 from first, Nat.zero_add] at there
    exact congrArg Word.kind there
  refine ⟨⟨depth, deep⟩, fun settings precedence => ?_⟩
  let other := { settings with ruleBudget := none, maxDepth := depth }
  have comparable : (Session.ofTokens tokens settings).Comparable other := ⟨rfl, rfl, rfl⟩
  exact (deep other precedence rfl (Nat.le_refl depth)).of_under comparable

/-! ### Calls -/

/-- What the tokens of a call of a function with the texts as its arguments are read as.  The three
cases exclude each other and leave out none. -/
structure CallsWith (function : Geometry) (texts : List String) (trees : List Expr)
    (tokens : List Token) : Prop where
  /-- With as many arguments as the function takes, they are parsed as the call. -/
  complete : function.takes texts.length = true →
    ParsesAs .adql tokens (.geometry function trees)
  /-- If an argument is missing, the parenthesis behind the last one is refused. -/
  missing : function.takes texts.length = false →
    (∃ count, texts.length < count ∧ function.takes count = true) →
      RefusedAt tokens (argumentsEnd texts texts.length) .comma .rightParen
  /-- If there are too many arguments, the comma behind the last one that is taken is refused. -/
  surplus : (∀ count, function.takes count = true → count < texts.length) →
    ∃ most, function.takes most = true ∧ (∀ count, function.takes count = true → count ≤ most) ∧
      RefusedAt tokens (argumentsEnd texts most) .rightParen .comma

/-- The front of a call ends where its arguments do. -/
theorem argumentsEnd_eq {depth : Nat} {texts : List String} {before after : List (Argument depth)}
    {last : Argument depth}
    (counts : texts.map tokenCount = (before ++ last :: after).map fun argument =>
      argument.words.length + 1) (name : String) :
    argumentsEnd texts (before.length + 1) =
      (callFront name (before.map Argument.words) last.words).length := by
  have split : (before ++ last :: after).take (before.length + 1) = before ++ [last] := by
    rw [List.take_append, List.take_of_length_le (Nat.le_succ _)]
    simp
  rw [argumentsEnd, length_callFront, List.map_take, counts, ← List.map_take, split]
  simp [Function.comp_def]

/-- A call of a geometry function with texts that are parsed as expressions is parsed as a call of
these expressions if the function takes as many; otherwise it is refused where it goes wrong. -/
theorem geometry_call {name : String} {function : Geometry}
    (named : Geometry.ofName? name = some function) {texts : List String} {trees : List Expr}
    (nonempty : texts ≠ []) (isArgument : List.Forall₂ IsArgument texts trees) :
    ∃ tokens, tokenize (callText name texts) = .ok tokens ∧
      CallsWith function texts trees tokens := by
  obtain ⟨depth, arguments, rfl, joins, counts⟩ := IsArgument.exists_arguments isArgument
  have length : texts.length = arguments.length := by simpa using congrArg List.length counts
  obtain ⟨tokens, cut, written⟩ := tokenize_callText (Geometry.isName_of_ofName? named) joins
  have deeper {allowance : Nat} (enough : depth + 3 ≤ allowance) :
      ∃ inner, depth ≤ inner ∧ allowance = inner + 3 :=
    ⟨allowance - 3, by omega, by omega⟩
  refine ⟨tokens, cut, ?complete, ?missing, ?surplus⟩
  case complete =>
    rw [length]
    intro takes
    have reads (allowance : Nat) (enough : depth + 3 ≤ allowance) :
        Reads (apply true allowance .expression) (callWords name (arguments.map Argument.words))
          (.geometry function (arguments.map Argument.tree)) [] := by
      obtain ⟨inner, deep, rfl⟩ := deeper enough
      exact Argument.reads_call named arguments takes deep
    have sound : ∀ word ∈ callWords name (arguments.map Argument.words), True := fun _ _ => trivial
    exact .of_reads written sound reads
  case missing =>
    rw [length]
    rintro not ⟨count, more, takes⟩
    have present : arguments ≠ [] := fun none => nonempty (List.length_eq_zero_iff.mp (by simp [length, none]))
    obtain ⟨before, last, rfl⟩ := (List.eq_nil_or_concat' arguments).resolve_left present
    rw [List.map_append, List.map_singleton, callWords_last] at written
    rw [List.length_append, List.length_singleton] at not more ⊢
    rw [argumentsEnd_eq counts name]
    have refuses (allowance : Nat) (enough : depth + 3 ≤ allowance) :
        Refuses (apply true allowance .expression)
          (callFront name (before.map Argument.words) last.words ++ [TokenKind.rightParen.word])
          .comma .rightParen [TokenKind.rightParen.word] := by
      obtain ⟨inner, deep, rfl⟩ := deeper enough
      exact Argument.refuses_call_missing named before last takes more not deep
    exact .of_refuses cut written refuses
  case surplus =>
    rw [length]
    intro fewer
    obtain ⟨most, takes, greatest⟩ := Geometry.exists_greatest fewer
    refine ⟨most, takes, greatest, ?_⟩
    have pos : 0 < most := (Geometry.admits_iff_takes.mpr takes).pos
    have less := fewer most takes
    obtain ⟨before, last, next, after, rfl, rfl⟩ : ∃ before last next after,
        arguments = before ++ last :: next :: after ∧ most = before.length + 1 := by
      refine ⟨arguments.take (most - 1), arguments[most - 1], arguments[most],
        arguments.drop (most + 1), ?_, by simp; omega⟩
      rw [← List.drop_eq_getElem_cons less]
      have behind := List.drop_eq_getElem_cons (Nat.lt_of_le_of_lt (Nat.sub_le most 1) less)
      rw [Nat.sub_add_cancel pos] at behind
      rw [← behind, List.take_append_drop]
    rw [List.map_append, List.map_cons, List.map_cons, callWords_inner] at written
    rw [argumentsEnd_eq counts name]
    let behind := separated .comma ((next :: after).map Argument.words) ++ [TokenKind.rightParen.word]
    have refuses (allowance : Nat) (enough : depth + 3 ≤ allowance) :
        Refuses (apply true allowance .expression)
          (callFront name (before.map Argument.words) last.words ++ TokenKind.comma.word :: behind)
          .rightParen .comma (TokenKind.comma.word :: behind) := by
      obtain ⟨inner, deep, rfl⟩ := deeper enough
      exact Argument.refuses_call_surplus named before last takes greatest deep
    exact .of_refuses cut written refuses

/-- The expression that a text is parsed to the end as, if there is one. -/
def expressionOf? (text : String) : Option Expr :=
  match tokenize text with
  | .error _ => none
  | .ok tokens =>
    match applyRule .expression (Session.ofTokens tokens {}) with
    | .ok expr after => if after.current.kind = .eof && after.errors.isEmpty then some expr else none
    | .error _ _ => none

/-- A text that is parsed to the end as an expression is an argument, if nothing that follows is taken
in by a comment. -/
theorem IsArgument.of_expressionOf? {text : String} {tree : Expr}
    (parsed : expressionOf? text = some tree) (closed : endsInLineComment text = false) :
    IsArgument text tree := by
  refine ⟨?_, closed⟩
  unfold expressionOf? at parsed
  cases cut : tokenize text with
  | error => simp [cut] at parsed
  | ok tokens =>
    cases run : applyRule .expression (Session.ofTokens tokens {}) with
    | error => simp [cut, run] at parsed
    | ok expr after =>
      simp only [cut, run] at parsed
      split at parsed
      · next finished =>
        cases parsed
        simp only [Bool.and_eq_true, decide_eq_true_eq, Array.isEmpty_iff] at finished
        exact ⟨tokens, {}, rfl, rfl, rfl, after, run, finished⟩
      · cases parsed

/-- Three texts: a column, a sum with a comment in it, and a call. -/
def distanceTexts : List String :=
  ["a", "1 /* one */ + 2", "POINT(x, f(y))"]

/-- The distance takes two arguments or four, so with three, another one is expected. -/
theorem geometry_call_distance :
    ∃ trees tokens, List.Forall₂ IsArgument distanceTexts trees ∧
      tokenize "distance(a, 1 /* one */ + 2, POINT(x, f(y)))" = .ok tokens ∧
      RefusedAt tokens 17 .comma .rightParen := by
  have parsed : ∀ text ∈ distanceTexts, (expressionOf? text).isSome = true ∧
      endsInLineComment text = false := by decide +kernel
  have isArgument : ∀ text ∈ distanceTexts, ∃ tree, IsArgument text tree := by
    intro text listed
    obtain ⟨isSome, closed⟩ := parsed text listed
    obtain ⟨tree, found⟩ := Option.isSome_iff_exists.mp isSome
    exact ⟨tree, .of_expressionOf? found closed⟩
  obtain ⟨first, hfirst⟩ := isArgument "a" (by decide)
  obtain ⟨second, hsecond⟩ := isArgument "1 /* one */ + 2" (by decide)
  obtain ⟨third, hthird⟩ := isArgument "POINT(x, f(y))" (by decide)
  have arguments : List.Forall₂ IsArgument distanceTexts [first, second, third] :=
    .cons hfirst (.cons hsecond (.cons hthird .nil))
  have named : Geometry.ofName? "distance" = some .distance := by decide +kernel
  obtain ⟨tokens, cut, calls⟩ := geometry_call named (by decide) arguments
  have text : callText "distance" distanceTexts =
      "distance(a, 1 /* one */ + 2, POINT(x, f(y)))" := by decide +kernel
  have position : argumentsEnd distanceTexts distanceTexts.length = 17 := by decide +kernel
  exact ⟨_, tokens, arguments, text ▸ cut, position ▸ calls.missing rfl ⟨4, by decide, rfl⟩⟩

/-- A text that ends in a line comment hides the comma behind it: though both texts are parsed to the
end as expressions, and a point takes two of them, the call is not parsed. -/
theorem comment_hides_argument :
    (∃ first, expressionOf? "1 -- x" = some first) ∧ (∃ second, expressionOf? "2" = some second) ∧
      Geometry.point.takes 2 = true ∧
      ¬∃ tokens tree, tokenize (callText "POINT" ["1 -- x", "2"]) = .ok tokens ∧
        ParsesAs .adql tokens tree := by
  have parsed : (expressionOf? "1 -- x").isSome = true ∧ (expressionOf? "2").isSome = true := by
    decide +kernel
  -- the parse fails, and no limit has ended it
  have fails : (match tokenize (callText "POINT" ["1 -- x", "2"]) with
      | .error _ => false
      | .ok tokens => match applyRule .expression (Session.ofTokens tokens {}) with
        | .ok _ _ => false
        | .error failure _ => !failure.fatal) = true := by decide +kernel
  refine ⟨Option.isSome_iff_exists.mp parsed.1, Option.isSome_iff_exists.mp parsed.2, rfl, ?_⟩
  rintro ⟨tokens, tree, cut, parses⟩
  simp only [cut] at fails
  obtain ⟨after, run, -⟩ | ⟨failure, after, run, fatal, -⟩ := parses.limited {} rfl
  · simp [run] at fails
  · simp [run, fatal] at fails

end Adql
