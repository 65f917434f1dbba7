import Adql.Proofs.RoundTrip.Expressions

/-!
# Reading operands and operators

What the rules for expressions read from given words, under any precedence table: names and columns,
lists, prefix operators and the steps of a run of operators.  A run of operators is put together of
its first operand and of steps (`Repeats`), so it can be read along the left side of a tree.
-/

namespace Adql

open Adql.Parser Adql.Grammar

variable {α β : Type} {table : PrecedenceTable}

/-! ### Words that can be written -/

/-- Rows of words with separators between them can be written if the rows can. -/
theorem spelled_separated {separator : TokenKind} {items : List α} {emit : α → List Word}
    (mark : separator.word.Spelled) (h : ∀ item ∈ items, ∀ word ∈ emit item, word.Spelled) :
    ∀ word ∈ separated separator (items.map emit), word.Spelled := by
  cases items with
  | nil => exact fun _ h => nomatch h
  | cons item rest =>
    obtain ⟨first, others⟩ := List.forall_mem_cons.mp h
    rw [List.map_cons, separated_cons]
    refine List.forall_mem_append.mpr ⟨first, fun word hword => ?_⟩
    obtain ⟨row, hrow, hword⟩ := List.mem_flatMap.mp hword
    obtain ⟨other, hother, rfl⟩ := List.mem_map.mp hrow
    rcases List.mem_cons.mp hword with rfl | hword
    · exact mark
    · exact others other hother word hword

/-- Words in parentheses can be written if the words can. -/
theorem spelled_enclosed {words : List Word} (h : ∀ word ∈ words, word.Spelled) :
    ∀ word ∈ enclosed words, word.Spelled :=
  List.forall_mem_cons.mpr ⟨rfl, List.forall_mem_append.mpr ⟨h, List.forall_mem_singleton.mpr rfl⟩⟩

/-- Words that may stand in parentheses can be written if the words can. -/
theorem spelled_enclosedIf (needed : Bool) {words : List Word} (h : ∀ word ∈ words, word.Spelled) :
    ∀ word ∈ enclosedIf needed words, word.Spelled := by
  cases needed with
  | false => exact h
  | true => exact spelled_enclosed h

/-- A word that is there or not can be written. -/
theorem spelled_wordIf (keyword : Keyword) (present : Bool) :
    ∀ word ∈ wordIf keyword present, word.Spelled := by
  cases present with
  | false => exact fun _ h => nomatch h
  | true => exact List.forall_mem_singleton.mpr keyword.spelled_word

/-! ### Lists -/

section

variable {separator : TokenKind} {emit : β → List Word} {value : β → α} {behind : List Word}

section

variable {item : Parser α} {F : List Word → Prop}

/-- The items behind the first one are read one by one. -/
theorem repeats_listStep (next : ∀ words, F (separator.word :: words)) (ends : F behind)
    {others : List β}
    (reads : ∀ b ∈ others, ∀ words, F words → Reads item (emit b ++ words) (value b) words table)
    (items : Array α) :
    Repeats table (listStep separator item) items
      ((others.map emit).flatMap (separator.word :: ·) ++ behind) (items ++ others.map value)
      behind := by
  induction others generalizing items with
  | nil => simpa using Repeats.refl items behind
  | cons b others ih =>
    obtain ⟨first, rest⟩ := List.forall_mem_cons.mp reads
    have follows : F ((others.map emit).flatMap (separator.word :: ·) ++ behind) := by
      cases others with
      | nil => exact ends
      | cons c others => exact next _
    have step : Reads (listStep separator item items)
        (separator.word :: (emit b ++ ((others.map emit).flatMap (separator.word :: ·) ++ behind)))
        (.more (items.push (value b))) _ table :=
      (Reads.eat_true rfl).bind ((first _ follows).bind (.pure _ _))
    have more := Repeats.word_cons step (ih rest (items.push (value b)))
    simpa using more

/-- Items with separators between them are read if each of them is. -/
theorem reads_oneOrMore (next : ∀ words, F (separator.word :: words)) (ends : F behind)
    (stops : firstKind behind ≠ separator) {items : List β} (nonempty : items ≠ [])
    (reads : ∀ b ∈ items, ∀ words, F words → Reads item (emit b ++ words) (value b) words table) :
    Reads (oneOrMore separator item) (separated separator (items.map emit) ++ behind)
      (items.map value) behind table := by
  cases items with
  | nil => exact absurd rfl nonempty
  | cons b others =>
    obtain ⟨first, rest⟩ := List.forall_mem_cons.mp reads
    have follows : F ((others.map emit).flatMap (separator.word :: ·) ++ behind) := by
      cases others with
      | nil => exact ends
      | cons c others => exact next _
    have done : Reads (listStep separator item (#[value b] ++ others.map value)) behind
        (.done (#[value b] ++ others.map value)) behind table :=
      (Reads.eat_false stops).bind (.pure _ _)
    rw [List.map_cons, separated_cons, List.append_assoc]
    refine (first _ follows).bind
      (((repeats_listStep next ends rest #[value b]).iterate done).bind ?_)
    simpa using Reads.pure ((b :: others).map value) behind

/-- Items with separators between them are read as they are if each of them is. -/
theorem reads_separated {emit : α → List Word} (next : ∀ words, F (separator.word :: words))
    (ends : F behind) (stops : firstKind behind ≠ separator) {items : List α} (nonempty : items ≠ [])
    (reads : ∀ a ∈ items, ∀ words, F words → Reads item (emit a ++ words) a words table) :
    Reads (oneOrMore separator item) (separated separator (items.map emit) ++ behind) items behind
      table := by
  have read : Reads (oneOrMore separator item) (separated separator (items.map emit) ++ behind)
      (items.map id) behind table :=
    reads_oneOrMore next ends stops nonempty reads
  rwa [List.map_id] at read

end

/-- A repetition whose steps read an item each reads the items, if every step but the last one reads
a separator behind its item, and the last one is done. -/
theorem reads_iterate_separated {step : Array α → Parser (Step (Array α))} {rest : List Word}
    {items : List β} (nonempty : items ≠ [])
    (more : ∀ b ∈ items, ∀ values words, values.size + 1 < items.length →
      Reads (step values) (emit b ++ separator.word :: words) (.more (values.push (value b))) words
        table)
    (last : ∀ b ∈ items, ∀ values, values.size + 1 = items.length →
      Reads (step values) (emit b ++ behind) (.done (values.push (value b))) rest table) :
    Reads (iterate step #[]) (separated separator (items.map emit) ++ behind)
      (items.map value).toArray rest table := by
  -- so many values have been read before the items that are left
  have loop (left : List β) (nonempty : left ≠ []) (values : Array α)
      (length : values.size + left.length = items.length) (part : ∀ b ∈ left, b ∈ items) :
      ∃ state words, Repeats table step values (separated separator (left.map emit) ++ behind)
        state words ∧ Reads (step state) words (.done (values ++ left.map value)) rest table := by
    induction left generalizing values with
    | nil => exact absurd rfl nonempty
    | cons b left ih =>
      obtain ⟨first, others⟩ := List.forall_mem_cons.mp part
      cases left with
      | nil =>
        have done := last b first values length
        exact ⟨values, _, .refl _ _, by simpa [separated] using done⟩
      | cons c left =>
        rw [List.length_cons, List.length_cons] at length
        obtain ⟨state, words, repeats, done⟩ := ih (List.cons_ne_nil c left)
          (values.push (value b)) (by rw [Array.size_push, List.length_cons]; omega) others
        have step := more b first values (separated separator ((c :: left).map emit) ++ behind)
          (by omega)
        refine ⟨state, words, ?_, by simpa using done⟩
        rw [List.map_cons, List.map_cons, separated, List.append_assoc, List.cons_append]
        refine .cons step ?_ repeats
        simp only [List.map_cons, List.length_append, List.length_cons]
        omega
  obtain ⟨state, words, repeats, done⟩ := loop items nonempty #[] (by simp) fun _ h => h
  simpa using repeats.iterate done

end

/-! ### Names -/

/-- Can the name be written: as a word that is not reserved, or in quotes? -/
def Identifier.Valid (name : Identifier) : Prop :=
  if name.quoted then name.value ≠ "" else IsName name.value

instance (name : Identifier) : Decidable name.Valid :=
  inferInstanceAs (Decidable (if name.quoted then name.value ≠ "" else IsName name.value))

/-- The word of a valid name can be written. -/
theorem Identifier.Valid.spelled {name : Identifier} (valid : name.Valid) : name.word.Spelled := by
  unfold Valid at valid
  unfold Identifier.word
  split at valid
  · next quoted =>
    rw [if_pos quoted]
    exact ⟨name.value, valid, by rw [Identifier.text, if_pos quoted]⟩
  · next regular =>
    obtain ⟨_, _, _, _, _, unreserved⟩ := id valid
    rw [if_neg regular, unreserved]
    exact valid

/-- The word of a valid name stands for the name. -/
theorem Identifier.Valid.identifier? {name : Identifier} (valid : name.Valid) :
    name.word.token.identifier? = some name := by
  obtain ⟨value, quoted⟩ := name
  unfold Valid at valid
  cases quoted with
  | true => simp [Identifier.word, Identifier.text, Token.identifier?, Word.token,
      Identifier.delimited]
  | false =>
    obtain ⟨_, _, _, _, _, unreserved⟩ := id valid
    simp only [Identifier.word, Bool.false_eq_true, ↓reduceIte, unreserved]
    rfl

/-- Are all parts of the qualified name valid? -/
def QualifiedName.Valid (name : QualifiedName) : Prop :=
  ∀ part ∈ name.qualifier ++ [name.name], part.Valid

instance (name : QualifiedName) : Decidable name.Valid :=
  inferInstanceAs (Decidable (∀ part ∈ name.qualifier ++ [name.name], part.Valid))

/-- The words of a qualified name are the words of its parts with points between them. -/
theorem QualifiedName.words_eq (name : QualifiedName) :
    name.words = separated .dot ((name.qualifier ++ [name.name]).map fun part => [part.word]) := by
  rw [separated_dot List.getLast?_concat, List.dropLast_concat]

/-- The words of a valid qualified name can be written. -/
theorem QualifiedName.Valid.spelled {name : QualifiedName} (valid : name.Valid) :
    ∀ word ∈ name.words, word.Spelled := by
  obtain ⟨qualifier, last⟩ := name
  obtain ⟨parts, final⟩ := List.forall_mem_append.mp valid
  refine List.forall_mem_append.mpr ⟨?_, fun word hword => ?_⟩
  · clear valid final
    induction qualifier with
    | nil => exact fun _ h => nomatch h
    | cons part qualifier ih =>
      obtain ⟨first, rest⟩ := List.forall_mem_cons.mp parts
      exact List.forall_mem_cons.mpr ⟨first.spelled, List.forall_mem_cons.mpr ⟨rfl, ih rest⟩⟩
  · rw [List.mem_singleton.mp hword]
    exact (final last List.mem_cons_self).spelled

/-- A valid qualified name is read, if no point follows it. -/
theorem reads_qualifiedName {name : QualifiedName} (valid : name.Valid) {behind : List Word}
    (stops : firstKind behind ≠ .dot) :
    Reads qualifiedName (name.words ++ behind) name behind table := by
  have parts : Reads (oneOrMore .dot identifier) (name.words ++ behind)
      (name.qualifier ++ [name.name]) behind table := by
    rw [name.words_eq]
    exact reads_separated (F := fun _ => True) (fun _ => trivial) trivial stops (by simp)
      fun part mem words _ => reads_identifier (valid part mem).identifier? words
  refine parts.bind ?_
  rw [List.getLast?_concat, List.dropLast_concat]
  exact .pure _ _

/-! ### Operands -/

section

variable {apply : (rule : Rule) → Parser rule.Result} {words behind : List Word}

/-- An operand that is told by the kind of its first word is read. -/
theorem reads_operand {value : Expr} (noPrefix : UnaryOp.ofToken? (firstKind words) = none)
    (noLiteral : firstKind words ∉ literalKinds)
    (h : Reads (primaryOf apply (firstKind words)) words value behind table) :
    Reads (operand true apply) words value behind table := by
  refine (Reads.currentKind words).bind ?_
  rw [noPrefix]
  dsimp only
  rw [primary_eq]
  refine .current_kind_bind fun token first => ?_
  rw [Token.literal?_eq_none (first ▸ noLiteral), first]
  exact h

/-- The first word of a qualified name is the word of a name. -/
theorem QualifiedName.Valid.firstKind {name : QualifiedName} (valid : name.Valid)
    (behind : List Word) : (firstKind (name.words ++ behind)).isIdentifier = true := by
  obtain ⟨qualifier, last⟩ := name
  cases qualifier with
  | nil => exact isIdentifier_of_identifier? (valid last (by simp)).identifier?
  | cons part qualifier => exact isIdentifier_of_identifier? (valid part (by simp)).identifier?

/-- A column is read, if neither a point nor a parenthesis follows it. -/
theorem reads_column {name : QualifiedName} (valid : name.Valid)
    (noDot : firstKind behind ≠ .dot) (noParen : firstKind behind ≠ .leftParen) :
    Reads (operand true apply) (name.words ++ behind) (.column name) behind table := by
  have named := valid.firstKind behind
  have column : Reads (nameOrCall apply) (name.words ++ behind) (.column name) behind table := by
    refine (Reads.nextKind _).bind ?_
    have next : secondKind (name.words ++ behind) ≠ .leftParen := by
      obtain ⟨qualifier, last⟩ := name
      cases qualifier with
      | nil => exact secondKind_cons _ _ ▸ noParen
      | cons part qualifier => exact nofun
    rw [if_neg next]
    exact (reads_qualifiedName valid noDot).map Expr.column
  refine reads_operand ?_ ?_ ?_
  all_goals
    generalize firstKind (name.words ++ behind) = kind at named ⊢
    cases kind with
    | identifier => first | exact column | decide
    | delimitedIdentifier => first | exact column | decide
    | _ => cases named

/-! ### Operators -/

/-- A token denotes the operator whose token it is, with its binding in the table. -/
theorem PrecedenceTable.ofToken?_token {op : BinaryOp} {binding : Binding}
    (found : table.binding? op = some binding) : table.ofToken? op.token = some (op, binding) := by
  simp [ofToken?, found]

/-- No operator between two operands starts a predicate. -/
theorem BinaryOp.startsPredicate_token (op : BinaryOp) (next : TokenKind) :
    startsPredicate op.token next = false := by
  cases op <;> rfl

/-- A binary operator that binds at the level or tighter goes on with a run. -/
theorem reads_binaryStep {op : BinaryOp} {binding : Binding} {word : Word} {left right : Expr}
    {level : Nat} (found : table.binding? op = some binding) (hword : word.kind = op.token)
    (tight : level ≤ binding.level)
    (h : Reads (apply (.operators binding.rightOperandLevel)) words right behind table) :
    Reads (operatorStep apply level left) (word :: words) (.more (.binary left op right)) behind
      table := by
  refine (Reads.precedence _).bind ((Reads.currentKind _).bind ((Reads.nextKind _).bind ?_))
  rw [firstKind_cons, hword, if_neg (by simp [BinaryOp.startsPredicate_token])]
  refine (Reads.currentKind _).bind ?_
  rw [firstKind_cons, hword, PrecedenceTable.ofToken?_token found]
  simp only [if_neg (Nat.not_lt_of_le tight)]
  exact Reads.advance_bind fun _ _ => h.bind (.pure _ _)

/-- A run of operators stops in front of an operator that binds looser. -/
theorem Stops.of_binary {op : BinaryOp} {binding : Binding} {word : Word} {level : Nat}
    (found : table.binding? op = some binding) (hword : word.kind = op.token)
    (loose : binding.level < level) : Stops level (word :: words) table := by
  unfold Stops
  rw [firstKind_cons, hword, BinaryOp.startsPredicate_token, if_neg Bool.false_ne_true,
    PrecedenceTable.ofToken?_token found]
  rintro _ _ ⟨⟩
  exact loose

/-- A run of tighter operators stops wherever a run of looser ones does. -/
theorem Stops.mono {level level' : Nat} (h : Stops level words table) (tighter : level ≤ level') :
    Stops level' words table := by
  unfold Stops at h ⊢
  split at h
  · next predicate =>
    rw [if_pos predicate]
    omega
  · next predicate =>
    rw [if_neg predicate]
    exact fun op binding found => Nat.lt_of_lt_of_le (h op binding found) tighter

/-- At the end marker every run of operators stops. -/
theorem stops_nil (level : Nat) : Stops level [] table := by
  intro _ _ found
  cases found

/-- A run of operators is read if its first operand and its steps are, and no operator goes on with
it. -/
theorem reads_operators {allowance level : Nat} {first last : Expr} {middle : List Word}
    (hfirst : Reads (operand true (Grammar.apply true allowance)) words first middle table)
    (steps : Repeats table (operatorStep (Grammar.apply true allowance) level) first middle last
      behind) (stops : Stops level behind table) :
    Reads (Grammar.apply true (allowance + 1) (.operators level)) words last behind table :=
  .apply (hfirst.bind (steps.iterate (reads_operatorStep_done last stops)))

end

end Adql
