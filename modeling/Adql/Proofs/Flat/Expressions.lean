import Adql.Proofs.Expressions.Restoring
import Adql.Proofs.Expected.InVain
import Adql.Proofs.Flat.Reading

/-!
# Chains of operands

However long a chain of operands is and in whatever order its operators stand, the runs of operators
that read it nest no deeper than there are levels of precedence.  The right operand of an operator is
a run at a tighter level than the operator, and it ends in front of every operator that binds looser,
so that the run around it goes on from there.  A run at a level is thus left with an allowance for the
levels above it, and none is needed for the length of the chain (`exists_reads_run`).
-/

namespace Adql

open Adql.Parser Adql.Grammar

namespace Flat

variable {apply : (rule : Rule) → Parser rule.Result} {F : List TokenKind}

/-! ### Operands -/

/-- A name is read. -/
theorem reads_name : ReadsAll identifier name F := by
  intro words behind text _
  obtain ⟨word, rfl, named, -⟩ := text.oneOf
  have known : ∃ value, word.token.identifier? = some value := by
    obtain ⟨kind, lexeme⟩ := word
    simp only [List.mem_cons, List.not_mem_nil, or_false] at named
    rcases named with rfl | rfl
    · exact ⟨_, rfl⟩
    · exact ⟨_, rfl⟩
  obtain ⟨value, found⟩ := known
  exact ⟨value, reads_identifier found behind⟩

/-- A name with any number of qualifiers is read. -/
theorem reads_qualified : ReadsAll qualifiedName qualified (otherThan [.dot]) := by
  intro words behind text follows
  have all : ReadsAll (oneOrMore .dot identifier) qualified (otherThan [.dot]) :=
    reads_name.oneOrMore fun found => mem_otherThan.mp found List.mem_cons_self
  obtain ⟨parts, read⟩ := all words behind text follows
  have present : parts ≠ [] :=
    (Ensures.oneOrMore_ne_nil .dot nofun moving.rel_identifier
      (fun words => (identifier_reads words).mono fun _ _ _ => trivial) _).of_reads read (Faced.any _)
  refine ⟨⟨parts.dropLast, parts.getLast present⟩, read.bind ?_⟩
  rw [List.getLast?_eq_some_getLast present]
  exact .pure _ _

/-- A column is read as an operand. -/
theorem reads_columnOperand :
    ReadsAll (Grammar.operand true apply) qualified (otherThan [.dot, .leftParen]) := by
  intro words behind text follows
  obtain ⟨word, rest, rfl, named, others⟩ := text.oneOf_mul
  have noParen : secondKind (word :: rest ++ behind) ≠ .leftParen := by
    have next := others.firstKind_mem follows
    rw [List.cons_append, secondKind_cons]
    intro same
    rw [same] at next
    revert next
    decide
  have noDot : firstKind behind ∈ otherThan [.dot] :=
    mem_otherThan.mpr fun found => mem_otherThan.mp follows (List.mem_cons.mpr
      (.inl (List.mem_singleton.mp found)))
  obtain ⟨column, read⟩ := reads_qualified _ behind text noDot
  have reads : Reads (nameOrCall apply) (word :: rest ++ behind) (.column column) behind := by
    refine (Reads.nextKind _).bind ?_
    rw [if_neg noParen]
    exact read.map Expr.column
  refine ⟨.column column, ?_⟩
  rw [List.cons_append] at reads ⊢
  simp only [List.mem_cons, List.not_mem_nil, or_false] at named
  refine reads_operand ?_ ?_ ?_
  all_goals
    rw [firstKind_cons]
    rcases named with same | same
    all_goals
      rw [same]
      first | exact reads | decide

/-- A literal is read as an operand. -/
theorem reads_literalOperand :
    ReadsAll (Grammar.operand true apply) (oneOf literalKinds) F := by
  intro words behind text _
  obtain ⟨word, rfl, found, genuine⟩ := text.oneOf
  have known : word.token.literal? ≠ none := by
    refine genuine.literal?_ne_none ?_
    change word.kind ∈ _
    revert found
    generalize word.kind = kind
    revert kind
    decide
  obtain ⟨value, literal⟩ := Option.ne_none_iff_exists'.mp known
  have noPrefix : UnaryOp.ofToken? word.kind = none := by
    revert found
    generalize word.kind = kind
    revert kind
    decide
  refine ⟨.literal value, (Reads.currentKind _).bind ?_⟩
  rw [List.singleton_append, firstKind_cons, noPrefix]
  refine Reads.current_bind fun token same => ?_
  rw [Token.literal?_of_word (show token.word = word.token.word from same), literal]
  exact Reads.advance_bind fun _ _ => .pure _ _

/-- An operand is read, whatever the rules that it does not need. -/
theorem reads_operand :
    ReadsAll (Grammar.operand true apply) operand (otherThan [.dot, .leftParen]) :=
  reads_columnOperand.add reads_literalOperand

/-! ### Runs -/

/-- The kinds that end an expression wherever they stand. -/
def expressionEnds : List TokenKind :=
  TokenKind.all.filter (endsExpression ·)

/-- A kind ends an expression if it is one of the kinds that do. -/
theorem ends_of_mem {kind : TokenKind} (h : kind ∈ expressionEnds) : endsExpression kind = true :=
  (List.mem_filter.mp h).2

/-- Does the piece start with an operator that binds looser than the level? -/
def Loose (level : Nat) (piece : List Word) : Prop :=
  ∃ op : BinaryOp, firstKind piece = op.token ∧ PrecedenceTable.adql.binaryLevel op < level

/-- A run of operators stops in front of pieces of which the first one is looser, or behind the last
one. -/
theorem Loose.stops {level : Nat} {pieces : List (List Word)} {behind : List Word}
    (nonempty : ∀ piece ∈ pieces, piece ≠ []) (h : ∀ piece ∈ pieces.head?, Loose level piece)
    (ends : endsExpression (firstKind behind) = true) : Stops level (pieces.flatten ++ behind) := by
  cases pieces with
  | nil => exact stops_of_ends ends level
  | cons piece pieces =>
    obtain ⟨op, same, loose⟩ := h piece rfl
    obtain ⟨word, words, rfl⟩ := List.exists_cons_of_ne_nil (nonempty piece List.mem_cons_self)
    exact .of_binary (PrecedenceTable.binding?_adql op) same loose

/-- A run of operators reads an operand and the pieces behind it up to the first one that is looser,
if as many rules may nest as there are levels from its own one on. -/
theorem exists_reads_run {behind : List Word} (follows : firstKind behind ∈ expressionEnds)
    (allowance level : Nat) (enough : 11 < level + allowance) (bounded : level ≤ 11)
    {first : List Word} {pieces : List (List Word)} (start : Matches operand first)
    (each : ∀ piece ∈ pieces, Matches link piece) :
    ∃ value left, left <:+ pieces ∧ (∀ piece ∈ left.head?, Loose level piece) ∧
      Reads (Grammar.apply true allowance (.operators level)) (first ++ (pieces.flatten ++ behind))
        value (left.flatten ++ behind) := by
  induction allowance generalizing level first pieces with
  | zero => omega
  | succ allowance ih =>
    have nonempty {pieces : List (List Word)}
        (each : ∀ piece ∈ pieces, Matches link piece) :
        ∀ piece ∈ pieces, piece ≠ [] := fun piece found => (each piece found).ne_nil rfl
    have ends := ends_of_mem follows
    have next : firstKind (pieces.flatten ++ behind) ∈ otherThan [.dot, .leftParen] := by
      have ahead := (Matches.flatten each).firstKind_mem follows
      revert ahead
      generalize firstKind (pieces.flatten ++ behind) = kind
      revert kind
      decide
    have operands : ReadsAll (Grammar.operand true (Grammar.apply true allowance)) operand
        (otherThan [.dot, .leftParen]) := reads_operand
    obtain ⟨value, readFirst⟩ := operands first _ start next
    obtain ⟨last, left, taken, stop, steps⟩ := exists_repeats
      (operatorStep (Grammar.apply true allowance) level) (Loose level) behind (nonempty each) (fun state piece rest suffix tight => by
        have listed : ∀ other ∈ piece :: rest, Matches link other :=
          fun other found => each other (suffix.subset found)
        obtain ⟨text, others⟩ := List.forall_mem_cons.mp listed
        obtain ⟨word, words, rfl, found, start⟩ := text.oneOf_mul
        obtain ⟨op, -, same⟩ := List.mem_map.mp found
        have level_le : level ≤ PrecedenceTable.adql.binaryLevel op :=
          Nat.le_of_not_lt fun loose => tight ⟨op, same.symm, loose⟩
        have bound := PrecedenceTable.binaryLevel_adql_le op
        obtain ⟨right, left, taken, -, read⟩ := ih (PrecedenceTable.adql.binaryLevel op + 1)
          (by omega) (by omega) start others
        exact ⟨.binary state op right, left, taken,
          reads_binaryStep (PrecedenceTable.binding?_adql op) same.symm level_le read⟩) value
    have stops : Stops level (left.flatten ++ behind) :=
      Loose.stops (nonempty fun piece found => each piece (taken.subset found)) stop ends
    exact ⟨last, left, taken, stop, reads_operators readFirst steps stops⟩

/-- A chain of operands is read as an expression, however long it is. -/
theorem reads_chain : ReadsAll (Grammar.apply true 13 .expression) chain expressionEnds := by
  intro words behind text follows
  obtain ⟨first, _, rfl, start, others⟩ := text.mul
  obtain ⟨pieces, rfl, each⟩ := others.star
  obtain ⟨value, left, -, stop, read⟩ := exists_reads_run follows 12 0 (by decide) (by decide) start
    each
  -- no operator binds looser than the loosest level
  have none : left = [] := by
    cases left with
    | nil => rfl
    | cons piece left =>
      obtain ⟨op, -, loose⟩ := stop piece rfl
      exact absurd loose (Nat.not_lt_zero _)
  rw [none] at read
  rw [List.append_assoc]
  exact ⟨value, .apply read⟩

end Flat

end Adql
