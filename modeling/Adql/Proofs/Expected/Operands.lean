import Adql.Proofs.Expected.Calls
import Adql.Proofs.Expected.Operators

/-!
# Operands

What is looked for where an operand has to stand really helps.  An operand is told by its first token:
by its kind, or because it stands for a literal.  So if the front ends where an operand starts, any kind
that can start one goes on with it, and in front of anything else there is none.  A name is a call in
front of a parenthesis; so if the front ends behind a name, it goes on there as well.
-/

namespace Adql

open Adql.Parser Adql.Grammar

/-! ### Names -/

section

variable {F : Set TokenKind} {n : Nat} {word : Word} (named : word.kind.isIdentifier = true)

include named

/-- The word of a name is read. -/
theorem exists_reads_name : ∃ name, ∀ behind, Reads identifier (word :: behind) name behind := by
  rcases identifier_decided [word] with ⟨name, _, _, ⟨⟩, _, reads⟩ | ⟨other, _⟩
  · exact ⟨name, reads⟩
  · exact absurd (named.symm.trans other) nofun

/-- Behind a name, a call is offered. -/
theorem offers_namedCall (deep : 9 ≤ n) :
    Offers F (namedCall (Grammar.apply true n) word.token.geometryFunction?) [word] .leftParen := by
  obtain ⟨less, rfl⟩ : ∃ less, n = less + 1 := ⟨n - 1, by omega⟩
  have differs : TokenKind.comma ≠ .leftParen := nofun
  refine Offers.mono ?_ (Set.subset_univ F)
  cases word.token.geometryFunction? with
  | some function =>
    have argument := closes_apply .expression less (by simp only [Rule.height]; omega)
    have offers := (closes_geometryArguments (F := Set.univ) argument function).offers differs trivial
    exact offers.of_reads fun _ _ _ _ reads => .apply (.advance_bind fun _ _ => reads)
  | none =>
    obtain ⟨name, reads⟩ := exists_reads_name named
    have offers := (closes_arguments (F := Set.univ) (n := less) name).offers differs trivial
    exact offers.of_reads fun behind _ _ _ reads' => .apply ((reads behind).bind reads')

/-- Behind a name, a call stalls in front of anything but a parenthesis. -/
theorem stalls_namedCall {behind : List Word} (function? : Option Geometry) (deep : 1 ≤ n)
    (noParen : firstKind behind ≠ .leftParen) :
    Stalls (namedCall (Grammar.apply true n) function?) (word :: behind) := by
  obtain ⟨less, rfl⟩ : ∃ less, n = less + 1 := ⟨n - 1, by omega⟩
  cases function? with
  | some function => exact .apply (.advance_bind fun _ _ => .bind_left (.expect noParen))
  | none =>
    obtain ⟨name, reads⟩ := exists_reads_name named
    exact .apply (.bind_right (reads behind) (.bind_left (.expect noParen)))

end

/-- The token and the one behind it tell a call from a column. -/
theorem nameOrCall_run (apply : (rule : Rule) → Parser rule.Result) (session : Session) :
    nameOrCall apply session =
      if (session.cursor.peek 1).kind = .leftParen then
        namedCall apply session.current.geometryFunction? session
      else (Expr.column <$> qualifiedName) session := by
  rw [nameOrCall_eq]
  change (if (session.cursor.peek 1).kind = .leftParen then _ else _ : Parser Expr) session = _
  split
  · rfl
  · rfl

section

variable {F : Set TokenKind} {size rank n : Nat} (h : HelpfulRules size rank n) (calls : 1 < rank)

include h calls

/-- A call, in front of a name. -/
theorem serves_namedCall (function? : Option Geometry) (word : Word) (front : List Word)
    (few : front.length + 1 < size) : ∃ outcome, Honest Set.univ
      (namedCall (Grammar.apply true n) function?) (word :: front) outcome := by
  cases function? with
  | some function => exact h.here (.geometry function) calls _ few fun _ => List.cons_ne_nil _ _
  | none => exact h.here .functionCall calls _ few nofun

/-- A call or a column, in front of a name. -/
theorem serves_nameOrCall (noDot : .dot ∉ F) {word : Word} (named : word.kind.isIdentifier = true)
    (front : List Word) (few : front.length + 1 < size) :
    ∃ outcome, Honest F (nameOrCall (Grammar.apply true n)) (word :: front) outcome := by
  have deep := h.deep
  have column : Helpful size F (Expr.column <$> qualifiedName) :=
    (ready_qualifiedName noDot).toHelpful.map
  obtain ⟨called, call⟩ := serves_namedCall h calls word.token.geometryFunction? word front few
  obtain ⟨outcome, plain⟩ := column.honest (word :: front) few
  have function {good : Word → Prop} {words : List Word} {session : Session}
      (faces : session.Faces (word :: words) .adql good) :
      session.current.geometryFunction? = word.token.geometryFunction? :=
    (Token.Alike.of_word (show session.current.word = word.token.word from
      faces.current_word)).geometryFunction
  cases front with
  | cons next front =>
    by_cases paren : next.kind = .leftParen
    · refine ⟨called, (call.mono (Set.subset_univ F)).congr fun good behind session faces => ?_⟩
      rw [nameOrCall_run, function faces, faces.next_kind]
      exact if_pos paren
    · refine ⟨outcome, plain.congr fun good behind session faces => ?_⟩
      rw [nameOrCall_run, faces.next_kind]
      exact if_neg paren
  | nil =>
    have noEnd : TokenKind.eof ∉ [TokenKind.leftParen] := by decide
    have next (behind : List Word) : secondKind ([word] ++ behind) = firstKind behind :=
      secondKind_cons word behind
    have offers : Offers F (namedCall (Grammar.apply true n) word.token.geometryFunction?) [word]
        .leftParen := offers_namedCall named (by omega)
    refine ⟨outcome, plain.dispatch [.leftParen] ?_ ?_ ?_⟩
    · intro good behind session faces others
      rw [nameOrCall_run, faces.next_kind, next]
      exact if_neg fun same => others (List.mem_singleton.mpr same)
    · intro kind paren
      obtain rfl := List.mem_singleton.mp paren
      refine offers.of_reads fun behind expr first final reads good session faces => ?_
      rw [nameOrCall_run, function faces, faces.next_kind, next, if_pos first]
      exact reads good session faces
    · intro session behind position splits paren
      rw [nameOrCall_run, function splits.faces, splits.faces.next_kind, next,
        if_pos (List.mem_singleton.mp paren)]
      refine (call.gets_of_stalls (fun behind others => ?_) noEnd (Set.mem_univ .comma)
        splits).of_none.mono fun _ => .inr
      exact stalls_namedCall named _ (by omega) fun same => others (List.mem_singleton.mpr same)

end

/-! ### Operands that are there -/

section

variable (apply : (rule : Rule) → Parser rule.Result)

/-- A literal, or an operand that is told by its kind. -/
def literalOr (kind : TokenKind) : Option Literal → Parser Expr
  | some value => advance >>= fun _ => pure (.literal value)
  | none => primaryOf apply kind

/-- The first token tells an operand without prefix operator. -/
theorem primary_eq_literalOr :
    primary true apply = current >>= fun token => literalOr apply token.kind token.literal? := by
  rw [primary_eq]
  refine bind_congr fun token => ?_
  cases token.literal? with
  | some value => rfl
  | none => rfl

/-- A prefix operator is applied to an operand that binds tight enough. -/
def prefixed (op : UnaryOp) : Parser Expr := do
  let level := (← precedence).prefixLevel op
  Expr.unary op <$> apply (.operators level)

/-- An operand behind its prefix operator, or without one. -/
def operandOf : Option UnaryOp → Parser Expr
  | some op => advance >>= fun _ => prefixed apply op
  | none => primary true apply

/-- The kind of the first token tells whether there is a prefix operator. -/
theorem operand_eq :
    operand true apply = currentKind >>= fun kind => operandOf apply (UnaryOp.ofToken? kind) := by
  refine bind_congr fun kind => ?_
  cases UnaryOp.ofToken? kind with
  | some op => rfl
  | none => rfl

end

section

variable {F : Set TokenKind} {size rank n level : Nat} (h : HelpfulRules size rank n) (ranks : 2 < rank)

include h ranks

/-- An operand that is told by its kind. -/
theorem serves_primaryOf (noDot : .dot ∉ F) (word : Word) (front : List Word)
    (few : front.length + 1 < size) : ∃ outcome, Honest F
      (primaryOf (Grammar.apply true n) word.kind) (word :: front) outcome := by
  have calls : 1 < rank := Nat.lt_of_succ_lt ranks
  have rule (rule : Rule) (low : rule.rank ≤ 1) (anywhere : rule.follow = Set.univ) :
      ∃ outcome, Honest F (Grammar.apply true n rule) (word :: front) outcome := by
    obtain ⟨outcome, honest⟩ := h.here rule (Nat.lt_of_le_of_lt low calls) (word :: front) few
      fun _ => List.cons_ne_nil _ _
    exact ⟨outcome, honest.mono (anywhere ▸ Set.subset_univ F)⟩
  have name (named : word.kind.isIdentifier = true) := serves_nameOrCall h calls noDot named front few
  generalize kind : word.kind = first at name
  unfold primaryOf
  split
  · obtain ⟨outcome, honest⟩ := serves_parenthesis h ranks kind few
    exact ⟨outcome, honest.mono (Set.subset_univ F)⟩
  · exact rule .case (by decide) rfl
  · exact rule .cast (by decide) rfl
  · exact rule .exists (by decide) rfl
  · exact rule .aggregate (by decide) rfl
  · exact rule .aggregate (by decide) rfl
  · exact rule .aggregate (by decide) rfl
  · exact rule .aggregate (by decide) rfl
  · exact rule .aggregate (by decide) rfl
  · exact name rfl
  · exact name rfl
  · exact ⟨none, .failExpecting operandStart⟩

/-- An operand without prefix operator, in front of a word. -/
theorem serves_primary (noDot : .dot ∉ F) (word : Word) (front : List Word)
    (few : front.length + 1 < size) : ∃ outcome, Honest F (primary true (Grammar.apply true n))
      (word :: front) outcome := by
  have inner : ∃ outcome, Honest F
      (literalOr (Grammar.apply true n) word.kind word.token.literal?) (word :: front) outcome := by
    cases word.token.literal? with
    | some value => exact ⟨_, .advance_bind (.pure (Expr.literal value) front)⟩
    | none => exact serves_primaryOf h ranks noDot word front few
  obtain ⟨outcome, honest⟩ := inner
  rw [primary_eq_literalOr]
  refine ⟨outcome, .current_bind (fun token same => ?_) honest⟩
  rw [Token.literal?_of_word (show token.word = word.token.word from same),
    show token.kind = word.kind from congrArg Word.kind same]

omit ranks in
/-- The operand of a prefix operator. -/
theorem helpful_prefixed (op : UnaryOp) :
    Helpful (size - 1) (runFollows level) (prefixed (Grammar.apply true n) op) := by
  have tight : PrecedenceTable.adql.notLevel ≤ PrecedenceTable.adql.prefixLevel op := by
    cases op <;> decide
  have sub : runFollows level ⊆ runFollows (PrecedenceTable.adql.prefixLevel op) :=
    (runFollows_subset_notLevel level).trans (runEnds_mono (le_min tight le_rfl))
  have inner : Helpful (size - 1) (runFollows level) (Expr.unary op <$>
      Grammar.apply true n (.operators (PrecedenceTable.adql.prefixLevel op))) :=
    ((h.readyLater (.operators _) rfl).toHelpful.mono sub).map
  refine inner.congr (.bind (.of_same fun _ => rfl) fun table => .map ?_) fun good words session faces => ?_
  · exact (apply_beyond n (.operators (table.prefixLevel op))).2
  · rw [← faces.precedence]
    rfl

/-- An operand, in front of a word. -/
theorem serves_operand (word : Word) (front : List Word) (few : front.length + 1 < size) :
    ∃ outcome, Honest (runFollows level) (operand true (Grammar.apply true n)) (word :: front)
      outcome := by
  have inner : ∃ outcome, Honest (runFollows level)
      (operandOf (Grammar.apply true n) (UnaryOp.ofToken? word.kind)) (word :: front) outcome := by
    cases UnaryOp.ofToken? word.kind with
    | some op =>
      have operand : Helpful (size - 1) (runFollows level) (prefixed (Grammar.apply true n) op) :=
        helpful_prefixed h op
      obtain ⟨outcome, honest⟩ := operand.honest front (by omega)
      exact ⟨outcome, honest.advance_bind⟩
    | none =>
      have noDot : .dot ∉ runFollows level := fun ⟨_, others, _⟩ => others (by decide)
      exact serves_primary h ranks noDot word front few
  obtain ⟨outcome, honest⟩ := inner
  rw [operand_eq]
  exact ⟨outcome, .currentKind_bind honest⟩

end

/-! ### Operands that are missing -/

/-- A kind that starts no operand is expected to be another one. -/
theorem primaryOf_of_not_mem {apply : (rule : Rule) → Parser rule.Result} {kind : TokenKind}
    (others : kind ∉ operandStart) : primaryOf apply kind = failExpecting operandStart := by
  unfold primaryOf
  split
  case h_12 => rfl
  all_goals exact absurd (by decide) others

/-- In front of a kind that starts no operand, there is none. -/
theorem stalls_operand {apply : (rule : Rule) → Parser rule.Result} {words : List Word}
    (others : firstKind words ∉ operandStart) : Stalls (operand true apply) words := by
  have known : ∀ kind ∈ TokenKind.all, kind ∉ operandStart →
      UnaryOp.ofToken? kind = none ∧ kind ∉ literalKinds := by decide
  obtain ⟨noPrefix, noLiteral⟩ := known _ (TokenKind.mem_all _) others
  rw [operand_eq]
  refine .bind_right (.currentKind words) ?_
  rw [noPrefix, operandOf, primary_eq_literalOr]
  refine .current_kind_bind fun token first => ?_
  rw [Token.literal?_eq_none (first ▸ noLiteral), first, literalOr, primaryOf_of_not_mem others]
  exact .failExpecting operandStart words

section

variable {n level : Nat} {kind : TokenKind}

/-- A prefix operator can be followed by its operand. -/
theorem offers_prefixed {op : UnaryOp} (there : UnaryOp.ofToken? kind = some op) (deep : 1 ≤ n) :
    Offers (runFollows level) (operand true (Grammar.apply true n)) [] kind := by
  obtain ⟨less, rfl⟩ : ∃ less, n = less + 1 := ⟨n - 1, by omega⟩
  have spelled : kind.word.Spelled := by
    unfold UnaryOp.ofToken? at there
    split at there
    all_goals first | rfl | cases there
  have tight : PrecedenceTable.adql.notLevel ≤ PrecedenceTable.adql.prefixLevel op := by
    cases op <;> decide
  refine ⟨kind.word, [nameWord], .unary op nameExpr, rfl, List.forall_mem_cons.mpr
    ⟨spelled, List.forall_mem_singleton.mpr spelled_nameWord⟩, fun behind follows => ?_⟩
  rw [operand_eq]
  refine (Reads.currentKind _).bind ?_
  rw [List.nil_append, firstKind_cons, show kind.word.kind = kind from rfl, there]
  refine .advance_bind fun _ _ => (Reads.precedence _).bind (.map _ (reads_nameRun ?_))
  exact runEnds_mono tight (runFollows_subset_notLevel level follows)

/-- A number with a point. -/
def realWord : Word :=
  ⟨.real, "1.0"⟩

/-- A number with a point is written so. -/
theorem spelled_realWord : realWord.Spelled :=
  ⟨(Decimal.readReal? "1.0").get (by decide +kernel), by decide +kernel, by decide +kernel,
    by decide +kernel, by decide +kernel⟩

/-- Any kind of literals has a literal. -/
theorem exists_literal (literal : kind ∈ literalKinds) :
    ∃ word : Word, word.kind = kind ∧ word.Spelled ∧ word.token.literal?.isSome = true := by
  simp only [literalKinds, List.mem_cons, List.not_mem_nil, or_false] at literal
  rcases literal with rfl | rfl | rfl | rfl | rfl | rfl
  · exact ⟨countWord 1, rfl, spelled_one, by decide +kernel⟩
  · exact ⟨realWord, rfl, spelled_realWord, by decide +kernel⟩
  · exact ⟨⟨.string, Text.quoted '\'' ""⟩, rfl, ⟨"", rfl⟩, rfl⟩
  · exact ⟨Keyword.TRUE.word, rfl, rfl, rfl⟩
  · exact ⟨Keyword.FALSE.word, rfl, rfl, rfl⟩
  · exact ⟨Keyword.NULL.word, rfl, rfl, rfl⟩

/-- A literal is an operand. -/
theorem offers_literal {F : Set TokenKind} (literal : kind ∈ literalKinds) :
    Offers F (operand true (Grammar.apply true n)) [] kind := by
  have known : ∀ kind ∈ literalKinds, UnaryOp.ofToken? kind = none := by decide
  have noPrefix := known kind literal
  obtain ⟨word, same, spelled, some⟩ := exists_literal literal
  obtain ⟨value, reads⟩ := Option.isSome_iff_exists.mp some
  refine ⟨word, [], .literal value, same, List.forall_mem_singleton.mpr spelled, fun behind _ => ?_⟩
  rw [operand_eq]
  refine (Reads.currentKind _).bind ?_
  rw [List.nil_append, firstKind_cons, same, noPrefix, operandOf, primary_eq_literalOr]
  refine .current_bind fun token told => ?_
  rw [Token.literal?_of_word (show token.word = word.token.word from told), reads]
  exact .advance_bind fun _ _ => .pure _ _

/-- What can follow a kind that tells an operand can follow it as an operand. -/
theorem Offers.operand {F : Set TokenKind} {apply : (rule : Rule) → Parser rule.Result}
    (h : Offers F (primaryOf apply kind) [] kind) (noPrefix : UnaryOp.ofToken? kind = none)
    (noLiteral : kind ∉ literalKinds) : Offers F (Grammar.operand true apply) [] kind :=
  h.of_reads fun _ _ first _ reads =>
    reads_operand (first ▸ noPrefix) (first ▸ noLiteral) (first ▸ reads)

/-- Any kind that starts an operand can be followed by the rest of one. -/
theorem offers_operand (deep : 12 ≤ n) (start : kind ∈ operandStart) :
    Offers (runFollows level) (operand true (Grammar.apply true n)) [] kind := by
  have rule (rule : Rule) (anywhere : rule.follow = Set.univ) (differs : .comma ≠ rule.opening) :
      Offers (runFollows level) (Grammar.apply true n rule) [] rule.opening := by
    have most : rule.height ≤ 9 := by cases rule <;> simp [Rule.height]
    have closes := closes_apply rule n (by omega)
    rw [anywhere] at closes
    exact (closes.offers differs trivial).mono (Set.subset_univ _)
  have aggregate (word : Keyword) :
      Offers (runFollows level) (Grammar.apply true n .aggregate) [] (.keyword word) := by
    obtain ⟨less, rfl⟩ : ∃ less, n = less + 1 := ⟨n - 1, by omega⟩
    have argument := closes_apply .expression less (by simp only [Rule.height]; omega)
    exact (offers_aggregate argument word).of_reads fun _ _ _ _ reads => .apply reads
  have name {kind : TokenKind} (name : Identifier) (valid : name.Valid) (named : name.word.kind = kind) :
      Offers (runFollows level) (operand true (Grammar.apply true n)) [] kind := by
    refine ⟨name.word, [], .column ⟨[], name⟩, named, List.forall_mem_singleton.mpr valid.spelled,
      fun behind follows => ?_⟩
    obtain ⟨-, others, -⟩ := follows
    simp only [List.mem_cons, not_or] at others
    have column : QualifiedName.Valid ⟨[], name⟩ := List.forall_mem_singleton.mpr valid
    exact reads_column column others.1 others.2.1
  have paren : Offers (runFollows level) (primaryOf (Grammar.apply true n) .leftParen) [] .leftParen := by
    obtain ⟨less, rfl⟩ : ∃ less, n = less + 3 := ⟨n - 3, by omega⟩
    exact ⟨TokenKind.leftParen.word, [nameWord, TokenKind.rightParen.word], .paren nameExpr, rfl,
      List.forall_mem_cons.mpr ⟨rfl, List.forall_mem_cons.mpr
        ⟨spelled_nameWord, List.forall_mem_singleton.mpr rfl⟩⟩,
      fun behind _ => reads_parenthesis_name rfl rfl behind⟩
  simp only [operandStart, List.mem_cons, List.not_mem_nil, or_false] at start
  rcases start with rfl | rfl | rfl | rfl | rfl | rfl | rfl | rfl | rfl | rfl | rfl | rfl | rfl | rfl |
    rfl | rfl | rfl | rfl | rfl | rfl | rfl
  · exact offers_prefixed rfl (by omega)
  · exact offers_literal (by decide)
  · exact offers_literal (by decide)
  · exact offers_literal (by decide)
  · exact (rule .exists rfl (by decide)).operand rfl (by decide)
  · exact (rule .case rfl (by decide)).operand rfl (by decide)
  · exact (rule .cast rfl (by decide)).operand rfl (by decide)
  · exact (aggregate .COUNT).operand rfl (by decide)
  · exact (aggregate .SUM).operand rfl (by decide)
  · exact (aggregate .AVG).operand rfl (by decide)
  · exact (aggregate .MIN).operand rfl (by decide)
  · exact (aggregate .MAX).operand rfl (by decide)
  · exact name (.regular "x") (by decide +kernel) (by decide +kernel)
  · exact name (.delimited "x") (by decide +kernel) rfl
  · exact offers_literal (by decide)
  · exact offers_literal (by decide)
  · exact offers_literal (by decide)
  · exact offers_prefixed rfl (by omega)
  · exact offers_prefixed rfl (by omega)
  · exact offers_prefixed rfl (by omega)
  · exact paren.operand rfl (by decide)

end

/-! ### Looking for an operand -/

/-- A rule stalls in front of anything but a parenthesis if it reads something in parentheses. -/
theorem stalls_parenthesisOf {n : Nat} {words : List Word} (deep : 2 ≤ n)
    (noParen : firstKind words ≠ .leftParen) (next : TokenKind) (opensQuery : Bool) :
    Stalls (parenthesisOf (Grammar.apply true n) next opensQuery) words := by
  obtain ⟨less, rfl⟩ : ∃ less, n = less + 2 := ⟨n - 2, by omega⟩
  have paren {more : Nat} : Stalls (Grammar.apply true (more + 1) .parenthesized) words :=
    .apply (.bind_left (.bind_left (.expect noParen)))
  have query {more : Nat} : Stalls (Grammar.apply true (more + 1) .scalarSubquery) words :=
    .apply (.bind_left (.bind_left (.expect noParen)))
  unfold parenthesisOf
  split
  · exact query
  · split
    · exact .firstOf (Stalls.fails rfl (.apply paren)) (.apply query)
    · exact paren

/-- A call of an aggregate function takes the name of the function. -/
theorem takes_aggregate (n : Nat) (word : Keyword) :
    Takes (.keyword word) (Grammar.apply true (n + 1) .aggregate) := by
  refine .apply (.peek_bind (fun _ => ⟨_, rfl⟩) fun token => ?_)
  cases token.keyword? with
  | none => exact .fail _
  | some word =>
    refine .advance_bind nofun fun _ => (Beyond.expect _).bind fun _ => ?_
    have argument := (beyond.rel_aggregateArgument (fun rule => apply_beyond n rule) word).2
    exact argument.bind fun _ => (Beyond.expect _).bind fun _ => .pure _

/-- A call of a geometry function takes the name of the function. -/
theorem takes_geometry (n : Nat) (function : Geometry) {kind : TokenKind} (noEnd : kind ≠ .eof) :
    Takes kind (Grammar.apply true (n + 1) (.geometry function)) := by
  refine .apply (.advance_bind noEnd fun _ => (Beyond.expect _).bind fun _ => ?_)
  have step (state : Array Expr) :=
    (beyond.rel_geometryStep (fun rule => apply_beyond n rule) function state).2
  exact (Beyond.iterate step #[]).bind fun _ => .pure _

section

variable {size rank n level : Nat} (h : HelpfulRules size rank n) (ranks : 2 < rank) (room : 0 < size)
  {session : Session} {behind : List Word} {position : Nat} (splits : session.Splits [] behind position)

include h ranks room splits

/-- At the end of the front, a call or a column takes the word of a name. -/
theorem gets_nameOrCall (named : (firstKind behind).isIdentifier = true) :
    Gets (· ∈ operandStart) none behind position session
      (nameOrCall (Grammar.apply true n) session) := by
  have deep := h.deep
  have calls : 1 < rank := Nat.lt_of_succ_lt ranks
  have known : ∀ kind ∈ TokenKind.all,
      (kind.isIdentifier = true → kind ≠ .eof ∧ kind ∈ operandStart) ∧
        (kind ∉ operandStart → kind.isIdentifier = false) := by decide
  have noEnd : TokenKind.eof ∉ operandStart := by decide
  obtain ⟨less, rfl⟩ : ∃ less, n = less + 1 := ⟨n - 1, by omega⟩
  have noName {words : List Word} (others : firstKind words ∉ operandStart) : Stalls identifier words :=
    identifier_stalls ((known _ (TokenKind.mem_all _)).2 others)
  rw [nameOrCall_run]
  split
  · cases session.current.geometryFunction? with
    | some function =>
      obtain ⟨noEnd, start⟩ := (known _ (TokenKind.mem_all _)).1 named
      exact (takes_geometry less function noEnd session behind position splits rfl).of_takes start
    | none =>
      obtain ⟨outcome, honest⟩ := (h.here .functionCall calls).helpful rfl |>.honest [] room
      exact honest.gets_of_stalls (fun behind others => .apply (.bind_left (noName others))) noEnd
        (Set.mem_univ .comma) splits
  · have noDot : TokenKind.dot ∉ ({.comma} : Set TokenKind) := nofun
    have column : Helpful size {.comma} (Expr.column <$> qualifiedName) :=
      (ready_qualifiedName noDot).toHelpful.map
    obtain ⟨outcome, honest⟩ := column.honest [] room
    refine honest.gets_of_stalls (fun behind others => ?_) noEnd (Set.mem_singleton _) splits
    exact .bind_left (.bind_left (.bind_left (noName others)))

/-- At the end of the front, a rule that starts with a reserved word takes that word or looks for it. -/
theorem gets_ruleOfWord (rule : Rule) (keyword : Keyword) (low : rule.rank ≤ 1)
    (noCall : rule.isCall = false) (anywhere : rule.follow = Set.univ)
    (start : .keyword keyword ∈ operandStart)
    (stalls : ∀ behind, firstKind behind ≠ .keyword keyword → Stalls (Grammar.apply true n rule) behind) :
    Gets (· ∈ operandStart) none behind position session (Grammar.apply true n rule session) := by
  have calls : rule.rank < rank := Nat.lt_of_le_of_lt low (Nat.lt_of_succ_lt ranks)
  obtain ⟨outcome, honest⟩ := (h.here rule calls).helpful noCall |>.honest [] room
  have follows : TokenKind.comma ∈ rule.follow := anywhere ▸ Set.mem_univ _
  have noEnd : TokenKind.eof ∉ [TokenKind.keyword keyword] := by simp
  refine (honest.gets_of_stalls (fun behind others => ?_) noEnd follows splits).mono
    fun kind found => List.mem_singleton.mp found ▸ start
  exact stalls behind fun same => others (List.mem_singleton.mpr same)

/-- At the end of the front, what starts with a parenthesis takes it or looks for it. -/
theorem gets_parenthesis : Gets (· ∈ operandStart) none behind position session
    (parenthesis true (Grammar.apply true n) session) := by
  have deep := h.deep
  rw [parenthesis_eq_of_faces splits.faces]
  obtain ⟨outcome, honest⟩ := (helpful_parenthesisOf h ranks (secondKind ([] ++ behind))
    (openQuery ([] ++ behind))).honest [] room
  have noEnd : TokenKind.eof ∉ [TokenKind.leftParen] := by decide
  refine (honest.gets_of_stalls (fun words others => ?_) noEnd (Set.mem_univ .comma) splits).mono
    fun kind found => List.mem_singleton.mp found ▸ by decide
  exact stalls_parenthesisOf (by omega) (fun same => others (List.mem_singleton.mpr same)) _ _

/-- At the end of the front, an operand that is told by its kind takes the word, or another one is
expected. -/
theorem gets_primaryOf : Gets (· ∈ operandStart) none behind position session
    (primaryOf (Grammar.apply true n) (firstKind behind) session) := by
  have deep := h.deep
  obtain ⟨less, rfl⟩ : ∃ less, n = less + 2 := ⟨n - 2, by omega⟩
  have name := gets_nameOrCall h ranks room splits
  have aggregate {keyword : Keyword} (there : firstKind behind = .keyword keyword)
      (start : .keyword keyword ∈ operandStart) :
      Gets (· ∈ operandStart) none behind position session
        (Grammar.apply true (less + 2) .aggregate session) :=
    (takes_aggregate _ keyword session behind position splits there).of_takes start
  generalize kind : firstKind behind = first at name
  unfold primaryOf
  split
  · exact gets_parenthesis h ranks room splits
  · exact gets_ruleOfWord h ranks room splits .case .CASE (by decide) rfl rfl (by decide) fun _ other =>
      .apply (.bind_left (.bind_left (.expect other)))
  · exact gets_ruleOfWord h ranks room splits .cast .CAST (by decide) rfl rfl (by decide) fun _ other =>
      .apply (.bind_left (.bind_left (.expect other)))
  · exact gets_ruleOfWord h ranks room splits .exists .EXISTS (by decide) rfl rfl (by decide) fun _ other =>
      .apply (.bind_left (.bind_left (.expect other)))
  · exact aggregate kind (by decide)
  · exact aggregate kind (by decide)
  · exact aggregate kind (by decide)
  · exact aggregate kind (by decide)
  · exact aggregate kind (by decide)
  · exact name rfl
  · exact name rfl
  · exact .failExpecting (fun _ => id) session

/-- At the end of the front, an operand takes the word that starts it, or one is expected. -/
theorem gets_operand : Gets (· ∈ operandStart) none behind position session
    (operand true (Grammar.apply true n) session) := by
  have here : session.current.kind = firstKind behind := splits.faces.current_kind
  have run : operand true (Grammar.apply true n) session =
      operandOf (Grammar.apply true n) (UnaryOp.ofToken? (firstKind behind)) session := by
    rw [operand_eq, ← here]
    rfl
  rw [run]
  cases there : UnaryOp.ofToken? (firstKind behind) with
  | some op =>
    have known : ∀ kind ∈ TokenKind.all, (UnaryOp.ofToken? kind).isSome = true →
        kind ≠ .eof ∧ kind ∈ operandStart := by decide
    obtain ⟨noEnd, start⟩ := known _ (TokenKind.mem_all _) (Option.isSome_of_eq_some there)
    have operand : Helpful (size - 1) (runFollows 0) (prefixed (Grammar.apply true n) op) :=
      helpful_prefixed h op
    exact (Takes.advance_bind noEnd (fun _ => operand.beyond) session behind position splits rfl).of_takes
      start
  | none =>
    have primary : primary true (Grammar.apply true n) session =
        literalOr (Grammar.apply true n) session.current.kind session.current.literal? session := by
      rw [primary_eq_literalOr]
      rfl
    rw [operandOf, primary, here]
    cases literal : session.current.literal? with
    | some value =>
      have isLiteral : firstKind behind ∈ literalKinds := by
        by_contra other
        rw [Token.literal?_eq_none (here ▸ other)] at literal
        cases literal
      have known : ∀ kind ∈ literalKinds, kind ≠ .eof ∧ kind ∈ operandStart := by decide
      obtain ⟨noEnd, start⟩ := known _ isLiteral
      exact (Takes.advance_bind noEnd (fun _ => .pure (Expr.literal value)) session behind position splits
        rfl).of_takes start
    | none => exact gets_primaryOf h ranks room splits

end

/-! ### Runs of operators -/

section

variable {size rank n level : Nat} (h : HelpfulRules size rank n) (ranks : 2 < rank)

include h ranks

/-- An operand. -/
theorem helpful_operand :
    Helpful size (runFollows level) (operand true (Grammar.apply true n)) := by
  have deep := h.deep
  have rules (rule : Rule) := apply_beyond n rule
  refine ⟨(beyond.rel_operand rules (beyond.rel_parenthesis rules true)).2, fun front few => ?_⟩
  cases front with
  | cons word front => exact serves_operand h ranks word front few
  | nil =>
    refine ⟨none, .at_end operandStart nofun (fun kind => offers_operand (by omega)) ?_ ?_⟩
    · exact fun behind others => stalls_operand others
    · exact fun session behind position splits => gets_operand h ranks few splits

/-- A run of operators. -/
theorem helpful_operators :
    Helpful size (runFollows level) (operators true (Grammar.apply true n) level) := by
  have closing : firstKind [TokenKind.rightParen.word] = .rightParen := rfl
  have step (left : Expr) :
      Helpful size (runFollows level) (operatorStep (Grammar.apply true n) level left) :=
    ⟨(beyond.rel_operatorStep (fun rule => apply_beyond n rule) level left).2,
      fun front few => serves_operatorStep h left front few⟩
  refine (helpful_operand h ranks).bind fun first => .iterate
    (fun left => nearby.rel_operatorStep h.nearby level left)
    (fun _ _ _ _ => ((apply_carries closing n).onExpressions.operatorStep level).shorter)
    (fun left behind follows => reads_operatorStep_done left ?_) step first
  exact stops_of_mem_runEnds (runFollows_subset level follows)

end

end Adql
