import Adql.Proofs.RoundTrip.Expressions
import Adql.Proofs.Shape.Tokens
import Mathlib.Computability.RegularExpressions

/-!
# Flat statements

A query without parentheses, prefix operators and predicates is a text of a regular language:
nothing in it encloses anything else, and all that it has any number of is repeated side by side.
`Flat.statement` is the regular expression over the kinds of tokens.  It leaves the size of a text open
in every place: the items of a select list and of a `FROM` clause, joins, grouping expressions, sort
keys, set operations, and the operands of an expression, with any of the binary operators between them.

Which kinds a text of a pattern may start with is computed from the pattern (`Pattern.heads`), so what
may stand behind one part of a statement is decided for the part that comes next
(`Matches.firstKind_mem`).
-/

namespace Adql

open Adql.Grammar

namespace Flat

/-! ### Patterns -/

/-- A regular expression over the kinds of tokens. -/
abbrev Pattern := RegularExpression TokenKind

/-- A token of one of the kinds. -/
def oneOf : List TokenKind → Pattern
  | [] => 0
  | kind :: kinds => .char kind + oneOf kinds

/-- A reserved word. -/
def word (keyword : Keyword) : Pattern :=
  .char (.keyword keyword)

/-- Something that may be missing. -/
def perhaps (pattern : Pattern) : Pattern :=
  1 + pattern

/-- One thing behind the other. -/
def sequence : List Pattern → Pattern
  | [] => 1
  | pattern :: patterns => pattern * sequence patterns

/-- Items with separators between them. -/
def separatedBy (separator : TokenKind) (item : Pattern) : Pattern :=
  item * (.char separator * item).star

/-- Something behind a word, which may be missing together with the word. -/
def clause (keyword : Keyword) (pattern : Pattern) : Pattern :=
  perhaps (word keyword * pattern)

/-! ### Statements -/

/-- A name, delimited or not. -/
def name : Pattern :=
  oneOf [.identifier, .delimitedIdentifier]

/-- A column or a table, with any number of qualifiers. -/
def qualified : Pattern :=
  separatedBy .dot name

/-- A column, or a literal without a sign. -/
def operand : Pattern :=
  qualified + oneOf literalKinds

/-- Any of the binary operators. -/
def binaryOperator : Pattern :=
  oneOf (BinaryOp.all.map BinaryOp.token)

/-- A binary operator and its right operand. -/
def link : Pattern :=
  binaryOperator * operand

/-- Any number of operands with binary operators between them. -/
def chain : Pattern :=
  operand * link.star

/-- Another name, with or without the word `AS`. -/
def otherName : Pattern :=
  perhaps (perhaps (word .AS) * name)

/-- All columns of a table. -/
def wildcard : Pattern :=
  name * ((.char .dot * name).star * (.char .dot * .char .star))

/-- An item of a select list. -/
def item : Pattern :=
  chain * otherName + wildcard

/-- Everything, or any number of items. -/
def selectList : Pattern :=
  .char .star + separatedBy .comma item

/-- A table. -/
def table : Pattern :=
  qualified * otherName

/-- The words of a join that is no product. -/
def matchedJoin : Pattern :=
  word .JOIN + word .INNER * word .JOIN +
    oneOf [.keyword .LEFT, .keyword .RIGHT, .keyword .FULL] * (perhaps (word .OUTER) * word .JOIN)

/-- A product, a natural join, or a join on a condition. -/
def join : Pattern :=
  word .CROSS * (word .JOIN * table) + word .NATURAL * (matchedJoin * table) +
    matchedJoin * (table * (word .ON * chain))

/-- A table with any number of joins. -/
def reference : Pattern :=
  table * join.star

/-- A specification. -/
def specification : Pattern :=
  sequence [word .SELECT, perhaps (oneOf [.keyword .DISTINCT, .keyword .ALL]),
    clause .TOP (.char .integer), selectList, word .FROM * separatedBy .comma reference,
    clause .WHERE chain, clause .GROUP (word .BY * separatedBy .comma chain), clause .HAVING chain]

/-- A set operator. -/
def setOperator : Pattern :=
  oneOf [.keyword .UNION, .keyword .EXCEPT, .keyword .INTERSECT]

/-- A set operator and what it joins to what stands before it. -/
def operation : Pattern :=
  setOperator * (perhaps (word .ALL) * specification)

/-- Any number of specifications with set operators between them. -/
def body : Pattern :=
  specification * operation.star

/-- A sort key. -/
def sortKey : Pattern :=
  chain * perhaps (oneOf [.keyword .DESC, .keyword .ASC])

/-- A query. -/
def query : Pattern :=
  sequence [body, clause .ORDER (word .BY * separatedBy .comma sortKey),
    clause .OFFSET (.char .integer)]

/-- A statement, up to the end marker. -/
def statement : Pattern :=
  sequence [query, perhaps (.char .semicolon), .char .eof]

/-! ### Words of a pattern -/

/-- Are the words, spelled like words of texts, a text of the pattern? -/
def Matches (pattern : Pattern) (words : List Word) : Prop :=
  words.map Word.kind ∈ pattern.matches' ∧ ∀ word ∈ words, word.token.Genuine

namespace Matches

variable {p q : Pattern} {words : List Word} {kind : TokenKind} {kinds : List TokenKind}

/-- The empty text is no word. -/
theorem one (h : Matches 1 words) : words = [] :=
  List.map_eq_nil_iff.mp h.1

/-- A single kind is the kind of a single word. -/
theorem char (h : Matches (.char kind) words) :
    ∃ word, words = [word] ∧ word.kind = kind ∧ word.token.Genuine := by
  have single : words.map Word.kind = [kind] := h.1
  obtain ⟨word, rfl, same⟩ := List.map_eq_singleton_iff.mp single
  exact ⟨word, rfl, same, h.2 word List.mem_cons_self⟩

/-- A choice is one of the two. -/
theorem add (h : Matches (p + q) words) : Matches p words ∨ Matches q words := by
  rcases (Language.mem_add _ _ _).mp h.1 with first | second
  · exact .inl ⟨first, h.2⟩
  · exact .inr ⟨second, h.2⟩

/-- A sequence is split into its parts. -/
theorem mul (h : Matches (p * q) words) :
    ∃ front back, words = front ++ back ∧ Matches p front ∧ Matches q back := by
  obtain ⟨first, hfirst, second, hsecond, split⟩ := Language.mem_mul.mp h.1
  obtain ⟨front, back, rfl, rfl, rfl⟩ := List.map_eq_append_iff.mp split.symm
  obtain ⟨genuineFront, genuineBack⟩ := List.forall_mem_append.mp h.2
  exact ⟨front, back, rfl, ⟨hfirst, genuineFront⟩, ⟨hsecond, genuineBack⟩⟩

/-- Nothing may stand behind a text. -/
theorem mul_one (h : Matches p words) : Matches (p * 1) words :=
  ⟨Language.mem_mul.mpr ⟨_, h.1, [], rfl, List.append_nil _⟩, h.2⟩

/-- A repetition is split into its pieces. -/
theorem star (h : Matches p.star words) :
    ∃ pieces : List (List Word), words = pieces.flatten ∧ ∀ piece ∈ pieces, Matches p piece := by
  obtain ⟨texts, split, each⟩ := Language.mem_kstar.mp h.1
  have genuine := h.2
  clear h
  induction texts generalizing words with
  | nil => exact ⟨[], List.map_eq_nil_iff.mp split, nofun⟩
  | cons text texts ih =>
    obtain ⟨first, others⟩ := List.forall_mem_cons.mp each
    obtain ⟨front, back, rfl, rfl, rest⟩ := List.map_eq_append_iff.mp split
    obtain ⟨genuineFront, genuineBack⟩ := List.forall_mem_append.mp genuine
    obtain ⟨pieces, rfl, all⟩ := ih rest others genuineBack
    exact ⟨front :: pieces, rfl, List.forall_mem_cons.mpr ⟨⟨first, genuineFront⟩, all⟩⟩

/-- Pieces of a pattern are a text of its repetition. -/
theorem flatten {pieces : List (List Word)} (each : ∀ piece ∈ pieces, Matches p piece) :
    Matches p.star pieces.flatten := by
  refine ⟨Language.mem_kstar.mpr ⟨pieces.map (·.map Word.kind), List.map_flatten, ?_⟩,
    fun word found => ?_⟩
  · intro text found
    obtain ⟨piece, listed, rfl⟩ := List.mem_map.mp found
    exact (each piece listed).1
  · obtain ⟨piece, listed, found⟩ := List.mem_flatten.mp found
    exact (each piece listed).2 word found

/-- What may be missing is there or not. -/
theorem perhaps (h : Matches (perhaps p) words) : words = [] ∨ Matches p words :=
  h.add.imp_left one

/-- One of some kinds is the kind of a single word. -/
theorem oneOf (h : Matches (oneOf kinds) words) :
    ∃ word, words = [word] ∧ word.kind ∈ kinds ∧ word.token.Genuine := by
  induction kinds with
  | nil => exact h.1.elim
  | cons kind kinds ih =>
    rcases h.add with first | others
    · obtain ⟨word, rfl, same, genuine⟩ := first.char
      exact ⟨word, rfl, same ▸ List.mem_cons_self, genuine⟩
    · obtain ⟨word, rfl, found, genuine⟩ := ih others
      exact ⟨word, rfl, List.mem_cons_of_mem kind found, genuine⟩

/-- A kind and what stands behind it are a word and the words behind it. -/
theorem char_mul (h : Matches (.char kind * p) words) :
    ∃ word rest, words = word :: rest ∧ word.kind = kind ∧ word.token.Genuine ∧ Matches p rest := by
  obtain ⟨_, rest, rfl, first, others⟩ := h.mul
  obtain ⟨word, rfl, same, genuine⟩ := first.char
  exact ⟨word, rest, rfl, same, genuine, others⟩

/-- One of some kinds and what stands behind it are a word and the words behind it. -/
theorem oneOf_mul (h : Matches (Flat.oneOf kinds * p) words) :
    ∃ word rest, words = word :: rest ∧ word.kind ∈ kinds ∧ Matches p rest := by
  obtain ⟨_, rest, rfl, first, others⟩ := h.mul
  obtain ⟨word, rfl, found, _⟩ := first.oneOf
  exact ⟨word, rest, rfl, found, others⟩

end Matches

/-! ### How texts of a pattern start -/

/-- The kinds that a text of the pattern may start with. -/
def heads : Pattern → List TokenKind
  | .zero | .epsilon => []
  | .char kind => [kind]
  | .plus p q => heads p ++ heads q
  | .comp p q => heads p ++ if p.matchEpsilon then heads q else []
  | .star p => heads p

/-- The kinds that may stand where a text of the pattern stands in front of one of the kinds. -/
def ahead (pattern : Pattern) (behind : List TokenKind) : List TokenKind :=
  heads pattern ++ if pattern.matchEpsilon then behind else []

/-- A text of a pattern that has the empty text may be empty. -/
theorem matchEpsilon_of_nil {pattern : Pattern} (h : [] ∈ pattern.matches') :
    pattern.matchEpsilon = true :=
  (pattern.rmatch_iff_matches' []).mpr h

/-- A text of a pattern starts with one of its heads. -/
theorem head_mem_heads {pattern : Pattern} {kind : TokenKind} {kinds : List TokenKind}
    (h : kind :: kinds ∈ pattern.matches') : kind ∈ heads pattern := by
  induction pattern generalizing kind kinds with
  | zero => exact h.elim
  | epsilon => cases h
  | char other =>
    have single : kind :: kinds = [other] := h
    rw [(List.cons.inj single).1]
    exact List.mem_cons_self
  | plus p q ihp ihq =>
    rcases (Language.mem_add _ _ _).mp h with first | second
    · exact List.mem_append_left _ (ihp first)
    · exact List.mem_append_right _ (ihq second)
  | comp p q ihp ihq =>
    obtain ⟨front, hfront, back, hback, split⟩ := Language.mem_mul.mp h
    cases front with
    | nil =>
      have starts : back = kind :: kinds := split
      have empty := matchEpsilon_of_nil hfront
      rw [heads, if_pos empty]
      exact List.mem_append_right _ (ihq (starts ▸ hback))
    | cons first front =>
      obtain ⟨rfl, -⟩ := List.cons.inj split
      exact List.mem_append_left _ (ihp hfront)
  | star p ih =>
    obtain ⟨texts, split, each⟩ := Language.mem_kstar.mp h
    clear h
    induction texts with
    | nil => cases split
    | cons text texts rest =>
      obtain ⟨first, others⟩ := List.forall_mem_cons.mp each
      cases text with
      | nil => exact rest split others
      | cons start text =>
        obtain ⟨rfl, -⟩ := List.cons.inj split
        exact ih first

/-- Where a text of a pattern stands in front of one of the kinds, there is a head of the pattern or,
if the text may be empty, one of the kinds. -/
theorem Matches.firstKind_mem {pattern : Pattern} {words behind : List Word} {kinds : List TokenKind}
    (h : Matches pattern words) (follows : firstKind behind ∈ kinds) :
    firstKind (words ++ behind) ∈ ahead pattern kinds := by
  cases words with
  | nil =>
    have empty := matchEpsilon_of_nil h.1
    rw [ahead, if_pos empty]
    exact List.mem_append_right _ follows
  | cons word words => exact List.mem_append_left _ (head_mem_heads h.1)

/-- A text of a pattern without the empty text is not empty. -/
theorem Matches.ne_nil {pattern : Pattern} {words : List Word} (h : Matches pattern words)
    (present : pattern.matchEpsilon = false) : words ≠ [] := by
  rintro rfl
  rw [matchEpsilon_of_nil h.1] at present
  cases present

/-- The kinds other than some. -/
def otherThan (kinds : List TokenKind) : List TokenKind :=
  TokenKind.all.filter (· ∉ kinds)

/-- A kind is another one than some if it is none of them. -/
theorem mem_otherThan {kind : TokenKind} {kinds : List TokenKind} :
    kind ∈ otherThan kinds ↔ kind ∉ kinds := by
  simp [otherThan, kind.mem_all]

end Flat

end Adql
