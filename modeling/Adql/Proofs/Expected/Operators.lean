import Adql.Proofs.Expected.InVain
import Adql.Proofs.Expected.Predicates
import Adql.Proofs.Expressions.Restoring
import Adql.Proofs.Expressions.Runs
import Adql.Proofs.Shape.Expressions

/-!
# Operators behind an operand

What is looked for behind an operand really helps.  Which operator comes next is told by the kinds of
two tokens: `NOT` starts a predicate only in front of a word that it can negate.  So if the front ends
behind an operand, or behind an operand and `NOT`, the step goes on with the run in front of some words,
and is done in front of all others.
-/

namespace Adql

open Adql.Parser Adql.Grammar

variable {α : Type}

/-! ### Runs -/

/-- A value that is yielded at once is the expected one. -/
theorem Gets.pure {offered : TokenKind → Prop} {front behind : List Word} {position : Nat}
    {session : Session} (splits : session.Splits front behind position) (a : α) :
    Gets offered (some (a, front)) behind position session ((Pure.pure a : Parser α) session) where
  noted _ found := .inl found
  passed := by
    rintro _ _ ⟨⟩
    exact .inr ⟨front, rfl, splits⟩

/-- Kinds that are offered may be noted. -/
theorem Gets.noteAll_bind {offered : TokenKind → Prop} {outcome : Option (α × List Word)}
    {front behind : List Word} {position : Nat} {session : Session} {kinds : List TokenKind}
    {q : Parser α} (splits : session.Splits front behind position) (listed : ∀ kind ∈ kinds, offered kind)
    (h : ∀ session : Session, session.Splits front behind position →
      Gets offered outcome behind position session (q session)) :
    Gets offered outcome behind position session ((noteAll kinds >>= fun _ => q) session) := by
  have noted : (kinds.foldl Session.noting session).Splits front behind position :=
    ⟨splits.faces.foldl_noting kinds, (session.cursor_foldl_noting kinds).symm ▸ splits.ends⟩
  exact (h _ noted).of_noted fun kind found =>
    (Session.mem_notedAt_foldl_noting found).imp_right fun ⟨_, there⟩ => listed kind there

/-- Inside the front, any kinds may be noted. -/
theorem Gets.noteAll_inside {offered : TokenKind → Prop} {outcome : Option (α × List Word)}
    {front behind : List Word} {word : Word} {position : Nat} {session : Session}
    {kinds : List TokenKind} {q : Parser α} (splits : session.Splits (word :: front) behind position)
    (h : ∀ session : Session, session.Splits (word :: front) behind position →
      Gets offered outcome behind position session (q session)) :
    Gets offered outcome behind position session ((noteAll kinds >>= fun _ => q) session) := by
  have noted : (kinds.foldl Session.noting session).Splits (word :: front) behind position :=
    ⟨splits.faces.foldl_noting kinds, (session.cursor_foldl_noting kinds).symm ▸ splits.ends⟩
  exact (h _ noted).of_noted fun _ found => .inl (splits.noted_foldl_noting found)

/-! ### The words that decide -/

section

variable (apply : (rule : Rule) → Parser rule.Result)

/-- One more operator of a run, told by the kinds of two tokens. -/
def stepOf (level : Nat) (left : Expr) (kind next : TokenKind) : Parser (Step Expr) :=
  if startsPredicate kind next then predicateStep apply .adql level left
  else binaryStep apply .adql level left kind

variable {apply} {level : Nat} {left : Expr} {words rest : List Word} {next : Step Expr}

/-- The first two words tell what goes on with a run. -/
theorem operatorStep_eq_of_faces {session : Session} {good : Word → Prop}
    (faces : session.Faces words .adql good) :
    operatorStep apply level left session =
      stepOf apply level left (firstKind words) (secondKind words) session := by
  have decided : operatorStep apply level left session =
      (if startsPredicate session.current.kind (session.cursor.peek 1).kind then
        predicateStep apply session.settings.precedence level left
      else binaryStep apply session.settings.precedence level left session.current.kind) session := by
    rw [operatorStep_eq]
    change (if startsPredicate session.current.kind (session.cursor.peek 1).kind then
      predicateStep apply session.settings.precedence level left else _ : Parser (Step Expr)) session = _
    split
    · rfl
    · rfl
  rw [decided, faces.current_kind, faces.next_kind, faces.precedence]
  rfl

/-- What the chosen step reads, the step reads. -/
theorem Reads.operatorStep
    (h : Reads (stepOf apply level left (firstKind words) (secondKind words)) words next rest) :
    Reads (Grammar.operatorStep apply level left) words next rest :=
  fun good session faces => operatorStep_eq_of_faces faces ▸ h good session faces

/-- A predicate goes on with a run at a level that predicates bind at or tighter. -/
theorem reads_predicateStep {expr : Expr}
    (predicate : startsPredicate (firstKind words) (secondKind words) = true)
    (tight : level ≤ PrecedenceTable.adql.predicateLevel)
    (h : Reads (predicateTail apply left PrecedenceTable.adql.predicate.rightOperandLevel) words expr
      rest) : Reads (Grammar.operatorStep apply level left) words (.more expr) rest := by
  refine .operatorStep ?_
  rw [stepOf, if_pos predicate, predicateStep, if_neg (Nat.not_lt_of_le tight)]
  exact h.map Step.more

end

/-! ### Kinds that go on with a run -/

/-- Only the listed words start predicates. -/
theorem mem_predicateStart_of_startsPredicate {kind next : TokenKind}
    (h : startsPredicate kind next = true) : kind ∈ predicateStart := by
  by_contra missing
  have none : ∀ kind ∈ TokenKind.all, kind ∉ predicateStart →
      kind ≠ .keyword .NOT ∧ startsPredicate kind .eof = false := by decide
  obtain ⟨noNegation, never⟩ := none kind (TokenKind.mem_all kind) missing
  rw [startsPredicate_of_ne noNegation next .eof, never] at h
  cases h

/-- The words of the predicates that `NOT` can negate. -/
def negatableStart : List TokenKind :=
  [.keyword .BETWEEN, .keyword .IN, .keyword .LIKE, .keyword .ILIKE]

/-- The listed words are those that `NOT` can negate. -/
theorem isNegatable_iff (kind : TokenKind) : isNegatable kind = true ↔ kind ∈ negatableStart := by
  have listed : ∀ kind ∈ TokenKind.all, isNegatable kind = true ↔ kind ∈ negatableStart := by decide
  exact listed kind (TokenKind.mem_all kind)

/-- A kind continues a run of operators if it is that of an operator that binds tight enough, or starts a
predicate. -/
theorem mem_continuations {level : Nat} {kind : TokenKind} :
    kind ∈ continuations .adql level ↔
      (∃ op, kind = op.token ∧ level ≤ PrecedenceTable.adql.binaryLevel op) ∨
        level ≤ PrecedenceTable.adql.predicateLevel ∧ kind ∈ predicateStart := by
  have levels : ∀ entry ∈ PrecedenceTable.adql.binary,
      PrecedenceTable.adql.binaryLevel entry.op = entry.binding.level := by decide
  have complete (op : BinaryOp) : ∃ entry ∈ PrecedenceTable.adql.binary, entry.op = op := by
    cases op <;> decide
  rw [continuations, List.mem_append, PrecedenceTable.infixTokens, List.mem_map]
  refine or_congr ⟨?_, ?_⟩ ?_
  · rintro ⟨entry, found, rfl⟩
    obtain ⟨listed, tight⟩ := List.mem_filter.mp found
    exact ⟨entry.op, rfl, levels entry listed ▸ of_decide_eq_true tight⟩
  · rintro ⟨op, rfl, tight⟩
    obtain ⟨entry, listed, rfl⟩ := complete op
    exact ⟨entry, List.mem_filter.mpr ⟨listed, decide_eq_true (levels entry listed ▸ tight)⟩, rfl⟩
  · split
    · next tight => exact (and_iff_right tight).symm
    · next loose => exact iff_of_false List.not_mem_nil fun found => loose found.1

/-- A token of an operator that binds tight enough continues a run. -/
theorem mem_continuations_of_ofToken? {level : Nat} {kind : TokenKind} {op : BinaryOp}
    {binding : Binding} (found : PrecedenceTable.adql.ofToken? kind = some (op, binding))
    (tight : level ≤ binding.level) : kind ∈ continuations .adql level := by
  obtain ⟨op', named, bound⟩ := Option.bind_eq_some_iff.mp found
  rw [PrecedenceTable.binding?_adql] at bound
  cases bound
  exact mem_continuations.mpr (.inl ⟨op, BinaryOp.eq_token_of_ofToken? named, tight⟩)

/-- In front of any other kind, a run is done. -/
theorem stops_of_not_mem_continuations {level : Nat} {words : List Word}
    (others : firstKind words ∉ continuations .adql level) : Stops level words := by
  unfold Stops
  split
  · next predicate =>
    by_contra tight
    exact others (mem_continuations.mpr (.inr ⟨Nat.le_of_not_lt tight,
      mem_predicateStart_of_startsPredicate predicate⟩))
  · intro op binding found
    by_contra tight
    exact others (mem_continuations_of_ofToken? found (Nat.le_of_not_lt tight))

section

variable {apply : (rule : Rule) → Parser rule.Result} {level : Nat} {left : Expr} {words : List Word}

/-- In front of any other word, there is no predicate that can be negated. -/
theorem stalls_negatableTail (others : firstKind words ∉ negatableStart) (negated : Bool) :
    Stalls (negatableTail apply left level negated) words := by
  simp only [negatableStart, List.mem_cons, List.not_mem_nil, or_false, not_or] at others
  obtain ⟨noRange, noMember, noPattern, noOther⟩ := others
  exact .bind_right (.eat_false noRange) (.bind_right (.eat_false noMember)
    (.bind_right (.eat_false noPattern) (.bind_right (.eat_false noOther) (.fail words))))

/-- In front of any other word, there is no predicate. -/
theorem stalls_predicateTail (others : firstKind words ∉ predicateStart) :
    Stalls (predicateTail apply left level) words := by
  have known : ∀ kind ∈ TokenKind.all, kind ∉ predicateStart →
      kind ≠ .keyword .IS ∧ kind ≠ .keyword .NOT ∧ kind ∉ negatableStart := by decide
  obtain ⟨noTest, noNegation, noWord⟩ := known _ (TokenKind.mem_all _) others
  rw [predicateTail_eq]
  exact .bind_right (.eat_false noTest) (.bind_right (.eat_false noNegation)
    (stalls_negatableTail noWord false))

/-- In front of any other word behind `NOT`, there is no predicate. -/
theorem stalls_predicateTail_negated {word : Word} (negation : word.kind = .keyword .NOT)
    (others : firstKind words ∉ negatableStart) :
    Stalls (predicateTail apply left level) (word :: words) := by
  have noTest : firstKind (word :: words) ≠ .keyword .IS := fun same => nomatch negation.symm.trans same
  rw [predicateTail_eq]
  exact .bind_right (.eat_false noTest) (.bind_right (.eat_true negation)
    (stalls_negatableTail others true))

end

section

variable {size rank n level : Nat} (h : HelpfulRules size rank n) (left : Expr)

include h

section

variable (tight : PrecedenceTable.adql.notLevel ≤ level)

include tight

/-- Any word of a predicate that can be negated can be followed by the rest of one. -/
theorem closes_negatableTail {kind : TokenKind} (start : kind ∈ negatableStart) (negated : Bool) :
    Closes {kind} (runFollows level) (negatableTail (Grammar.apply true n) left level negated) := by
  have between : Closes {.identifier} (runFollows level)
      (betweenTail (Grammar.apply true n) left negated level) :=
    (ready_betweenTail h left negated tight).closes
  simp only [negatableStart, List.mem_cons, List.not_mem_nil, or_false] at start
  rcases start with rfl | rfl | rfl | rfl
  · exact .eat_found between rfl
  · exact .eat_missed (.eat_found (ready_inTail h left negated).closes rfl) nofun
  · exact .eat_missed (.eat_missed (.eat_found (ready_likeTail h left negated false).closes rfl) nofun)
      nofun
  · exact .eat_missed (.eat_missed (.eat_missed
      (.eat_found (ready_likeTail h left negated true).closes rfl) nofun) nofun) nofun

/-- Any word that starts a predicate can be followed by the rest of one. -/
theorem closes_predicateTail {kind : TokenKind} (start : kind ∈ predicateStart)
    (other : kind ≠ .keyword .NOT) :
    Closes {kind} (runFollows level) (predicateTail (Grammar.apply true n) left level) := by
  have null : Closes {.keyword .NULL} (runFollows level) (do
      let negated ← eatWord .NOT
      expectWord .NULL
      return Expr.isNull left negated) :=
    .eat_missed (.expectWord_bind (.pure (G := Set.univ) (Set.subset_univ _) _)) nofun
  have known : ∀ kind ∈ predicateStart, kind ≠ .keyword .NOT →
      kind = .keyword .IS ∨ kind ∈ negatableStart ∧ .keyword .IS ≠ kind := by decide
  rw [predicateTail_eq]
  rcases known kind start other with rfl | ⟨negatable, differs⟩
  · exact .eat_found null rfl
  · exact .eat_missed (.eat_missed (closes_negatableTail h left tight negatable false) other.symm) differs

/-- Any word of a predicate that can be negated can follow `NOT`. -/
theorem offers_negated {kind : TokenKind} {word : Word} (negation : word.kind = .keyword .NOT)
    (start : kind ∈ negatableStart) : Offers (runFollows level)
      (predicateTail (Grammar.apply true n) left level) [word] kind := by
  have known : ∀ kind ∈ negatableStart, .keyword .AND ≠ kind := by decide
  have offers := (closes_negatableTail h left tight start true).offers (known kind start)
    (and_mem_runFollows tight)
  refine offers.of_reads fun behind expr _ final reads => ?_
  have noTest : firstKind ([word] ++ behind) ≠ .keyword .IS := fun same => nomatch negation.symm.trans same
  rw [predicateTail_eq]
  exact (Reads.eat_false noTest).bind ((Reads.eat_true negation).bind reads)

end

/-! ### Steps -/

/-- The postfix part of a predicate, in a run at a level that predicates bind at or tighter. -/
theorem helpful_predicateStep (tight : level ≤ PrecedenceTable.adql.predicateLevel) :
    Helpful size (runFollows level) (predicateTail (Grammar.apply true n) left
      PrecedenceTable.adql.predicate.rightOperandLevel) :=
  (helpful_predicateTail h left (by decide)).mono (runFollows_mono (Nat.le_succ_of_le tight))

/-- A step of a run that two kinds tell, in front of a word. -/
theorem serves_stepOf (kind next : TokenKind) (word : Word) (front : List Word)
    (few : front.length + 1 < size) : ∃ outcome, Honest (runFollows level)
      (stepOf (Grammar.apply true n) level left kind next) (word :: front) outcome := by
  unfold stepOf
  split
  · unfold predicateStep
    split
    · exact ⟨_, .pure _ _⟩
    · next tight =>
      exact (helpful_predicateStep h left (Nat.le_of_not_lt tight)).map.honest (word :: front) few
  · unfold binaryStep
    split
    · exact ⟨_, .noteAll_bind _ (.pure _ _)⟩
    · next op binding found =>
      split
      · exact ⟨_, .pure _ _⟩
      · next tight =>
        have tighter : level ≤ binding.rightOperandLevel := by
          unfold Binding.rightOperandLevel
          split <;> omega
        have right := (h.readyLater (.operators binding.rightOperandLevel) rfl).toHelpful.mono
          (runFollows_mono tighter)
        have step := right.bind fun right =>
          Ready.pure (F := runFollows level) subset_rfl (Step.more (Expr.binary left op right))
        obtain ⟨outcome, honest⟩ := step.honest front (by omega)
        exact ⟨outcome, honest.advance_bind⟩

omit h in
/-- Behind an operand and `NOT`, a run of tighter operators is done. -/
theorem honest_operatorStep_loose {word : Word} (negation : word.kind = .keyword .NOT)
    (loose : PrecedenceTable.adql.predicateLevel < level) :
    Honest (runFollows level) (operatorStep (Grammar.apply true n) level left) [word]
      (some (.done left, [word])) where
  shorter := by
    rintro _ _ ⟨⟩
    exact Nat.le_refl _
  steady _ := by
    refine .inr fun behind _ => reads_operatorStep_done left ?_
    unfold Stops
    rw [List.singleton_append, firstKind_cons, negation]
    split
    · exact loose
    · rintro _ _ ⟨⟩
  gets session behind position splits := by
    rw [operatorStep_eq_of_faces splits.faces, stepOf, List.singleton_append, firstKind_cons, negation]
    split
    · rw [predicateStep, if_pos loose]
      exact .pure splits _
    · exact .noteAll_inside splits fun _ splits => .pure splits _

/-- Behind an operand and `NOT`, a run goes on in front of the words that `NOT` can negate. -/
theorem honest_operatorStep_negation {word : Word} (negation : word.kind = .keyword .NOT)
    (tight : level ≤ PrecedenceTable.adql.predicateLevel) (few : 1 < size) :
    Honest (runFollows level) (operatorStep (Grammar.apply true n) level left) [word]
      (some (.done left, [word])) := by
  have decided {good : Word → Prop} {behind : List Word} {session : Session}
      (faces : session.Faces ([word] ++ behind) .adql good) :
      operatorStep (Grammar.apply true n) level left session =
        stepOf (Grammar.apply true n) level left (.keyword .NOT) (firstKind behind) session := by
    rw [operatorStep_eq_of_faces faces, List.singleton_append, firstKind_cons, secondKind_cons, negation]
  have goesOn {kind : TokenKind} (start : kind ∈ negatableStart) :
      stepOf (Grammar.apply true n) level left (.keyword .NOT) kind =
        Step.more <$> predicateTail (Grammar.apply true n) left
          PrecedenceTable.adql.predicate.rightOperandLevel := by
    have negatable : startsPredicate (.keyword .NOT) kind = true := (isNegatable_iff kind).mpr start
    rw [stepOf, if_pos negatable, predicateStep, if_neg (Nat.not_lt_of_le tight)]
  have done : Honest (runFollows level) (noteAll (continuations .adql level) >>= fun _ =>
      pure (Step.done left)) [word] (some (.done left, [word])) := .noteAll_bind _ (.pure _ _)
  refine done.dispatch negatableStart ?_ ?_ ?_
  · intro good behind session faces others
    have noPredicate : ¬startsPredicate (.keyword .NOT) (firstKind behind) = true := fun negatable =>
      others ((isNegatable_iff _).mp negatable)
    rw [decided faces, stepOf, if_neg noPredicate]
    rfl
  · intro kind start
    have offers := (offers_negated h left (by decide) negation start).mono
      (runFollows_mono (Nat.le_succ_of_le tight))
    obtain ⟨next, more, expr, first, spelled, reads⟩ := offers
    refine ⟨next, more, .more expr, first, spelled, fun behind follows => ?_⟩
    refine reads_predicateStep ?_ tight (reads behind follows)
    rw [List.singleton_append, firstKind_cons, secondKind_cons, firstKind_cons, negation, first]
    exact (isNegatable_iff kind).mpr start
  · intro session behind position splits start
    have noEnd : TokenKind.eof ∉ negatableStart := by decide
    have ends : TokenKind.comma ∈ runEnds (min level PrecedenceTable.adql.notLevel) :=
      mem_runEnds_of_ends rfl _
    obtain ⟨outcome, honest⟩ := (helpful_predicateStep h left tight).map.honest [word] few
    rw [decided splits.faces, goesOn start]
    refine (honest.gets_of_stalls (fun behind others => ?_) noEnd ends splits).of_none.mono fun _ => .inr
    rw [map_eq_pure_bind]
    exact .bind_left (stalls_predicateTail_negated negation others)

omit h in
/-- The token of an operator that binds tight enough can be followed by a name. -/
theorem offers_binaryStep (op : BinaryOp) (tight : level ≤ PrecedenceTable.adql.binaryLevel op) :
    Offers (runFollows level) (operatorStep (Grammar.apply true (n + 1)) level left) [] op.token := by
  have found := PrecedenceTable.binding?_adql op
  have tighter : level ≤ PrecedenceTable.adql.binaryLevel op + 1 := Nat.le_succ_of_le tight
  have spelled : op.token.word.Spelled := by cases op <;> rfl
  refine ⟨op.token.word, [nameWord], .more (.binary left op nameExpr), rfl,
    List.forall_mem_cons.mpr ⟨spelled, List.forall_mem_singleton.mpr spelled_nameWord⟩,
    fun behind follows => ?_⟩
  exact reads_binaryStep found rfl tight
    (reads_nameRun (runEnds_mono tighter (runFollows_subset level follows)))

omit h in
/-- A step of a run offers what starts a predicate, whose words tell that it is one. -/
theorem offers_predicateStep {word : Word} {more : List Word} {expr : Expr}
    (tight : level ≤ PrecedenceTable.adql.predicateLevel)
    (spelled : ∀ next ∈ word :: more, next.Spelled)
    (predicate : ∀ behind, startsPredicate word.kind (firstKind (more ++ behind)) = true)
    (reads : ∀ behind, firstKind behind ∈ runFollows PrecedenceTable.adql.predicate.rightOperandLevel →
      Reads (predicateTail (Grammar.apply true n) left PrecedenceTable.adql.predicate.rightOperandLevel)
        (word :: (more ++ behind)) expr behind) :
    Offers (runFollows level) (operatorStep (Grammar.apply true n) level left) [] word.kind := by
  have sub := runFollows_mono (Nat.le_succ_of_le tight)
  refine ⟨word, more, .more expr, rfl, spelled, fun behind follows =>
    reads_predicateStep ?_ tight (reads behind (sub follows))⟩
  rw [List.nil_append, firstKind_cons, secondKind_cons]
  exact predicate behind

/-- Any word that starts a predicate can be followed by the rest of one. -/
theorem offers_predicateStart {kind : TokenKind} (start : kind ∈ predicateStart)
    (other : kind ≠ .keyword .NOT) (tight : level ≤ PrecedenceTable.adql.predicateLevel) :
    Offers (runFollows level) (operatorStep (Grammar.apply true n) level left) [] kind := by
  have known : ∀ kind ∈ predicateStart, .rightParen ≠ kind := by decide
  have tight' : PrecedenceTable.adql.notLevel ≤ PrecedenceTable.adql.predicate.rightOperandLevel := by
    decide
  have always : ∀ kind ∈ predicateStart, kind ≠ .keyword .NOT → startsPredicate kind .eof = true := by
    decide
  have closes := closes_predicateTail h left tight' start other
  obtain ⟨word, more, expr, rfl, spelled, reads⟩ := closes.offers (known kind start)
    (mem_runEnds_of_ends rfl _)
  refine offers_predicateStep left tight spelled (fun behind => ?_) reads
  rw [startsPredicate_of_ne other _ .eof]
  exact always word.kind start other

/-- `NOT` can be followed by a predicate that can be negated. -/
theorem offers_negation (tight : level ≤ PrecedenceTable.adql.predicateLevel) :
    Offers (runFollows level) (operatorStep (Grammar.apply true n) level left) [] (.keyword .NOT) := by
  have range : TokenKind.keyword .BETWEEN ∈ negatableStart := by decide
  have offers : Offers (runFollows PrecedenceTable.adql.predicate.rightOperandLevel)
      (predicateTail (Grammar.apply true n) left PrecedenceTable.adql.predicate.rightOperandLevel)
      [Keyword.NOT.word] (.keyword .BETWEEN) :=
    offers_negated h left (by decide) rfl range
  obtain ⟨word, more, expr, first, spelled, reads⟩ := offers
  have written : Keyword.NOT.word.Spelled := rfl
  refine offers_predicateStep left tight (List.forall_mem_cons.mpr ⟨written, spelled⟩)
    (fun behind => ?_) reads
  rw [List.cons_append, firstKind_cons, first]
  rfl

/-- Any kind that continues a run of operators can be followed by the rest of a step. -/
theorem offers_operatorStep {kind : TokenKind} (start : kind ∈ continuations .adql level) :
    Offers (runFollows level) (operatorStep (Grammar.apply true n) level left) [] kind := by
  have deep := h.deep
  obtain ⟨less, rfl⟩ : ∃ less, n = less + 1 := ⟨n - 1, by omega⟩
  rcases mem_continuations.mp start with ⟨op, rfl, tight⟩ | ⟨tight, start⟩
  · exact offers_binaryStep left op tight
  · by_cases negation : kind = .keyword .NOT
    · exact negation ▸ offers_negation h left tight
    · exact offers_predicateStart h left start negation tight

/-- At the end of the front, a step of a run takes a word that continues the run, or the run is done. -/
theorem gets_operatorStep (room : 0 < size) {session : Session} {behind : List Word} {position : Nat}
    (splits : session.Splits [] behind position) :
    Gets (· ∈ continuations .adql level) (some (.done left, [])) behind position session
      (operatorStep (Grammar.apply true n) level left session) := by
  rw [operatorStep_eq_of_faces splits.faces, List.nil_append, stepOf]
  split
  · unfold predicateStep
    split
    · exact .pure splits _
    · next tight =>
      have tight := Nat.le_of_not_lt tight
      have noEnd : TokenKind.eof ∉ predicateStart := by decide
      have ends : TokenKind.comma ∈ runEnds (min level PrecedenceTable.adql.notLevel) :=
        mem_runEnds_of_ends rfl _
      obtain ⟨outcome, honest⟩ := (helpful_predicateStep h left tight).map.honest [] room
      refine (honest.gets_of_stalls (fun behind others => ?_) noEnd ends splits).of_none.mono
        fun kind start => mem_continuations.mpr (.inr ⟨tight, start⟩)
      rw [map_eq_pure_bind]
      exact .bind_left (stalls_predicateTail others)
  · unfold binaryStep
    cases found : PrecedenceTable.adql.ofToken? (firstKind behind) with
    | none => exact .noteAll_bind splits (fun _ => id) fun _ splits => .pure splits _
    | some entry =>
      obtain ⟨op, binding⟩ := entry
      dsimp only
      split
      · exact .pure splits _
      · next tight =>
        have noEnd : firstKind behind ≠ .eof := by
          intro same
          rw [same] at found
          cases found
        have beyond : Beyond (Grammar.apply true n (.operators binding.rightOperandLevel) >>= fun right =>
            pure (Step.more (Expr.binary left op right))) :=
          (apply_beyond n (.operators binding.rightOperandLevel)).2.bind fun _ => .pure _
        exact (Takes.advance_bind noEnd (fun _ => beyond) session behind position splits rfl).of_takes
          (mem_continuations_of_ofToken? found (Nat.le_of_not_lt tight))

/-- A step of a run of operators. -/
theorem serves_operatorStep (front : List Word) (few : front.length < size) :
    ∃ outcome, Honest (runFollows level) (operatorStep (Grammar.apply true n) level left) front
      outcome := by
  have decided (word : Word) (front : List Word) (kind : TokenKind) (few : front.length + 1 < size)
      (same : ∀ behind, startsPredicate word.kind (firstKind (front ++ behind)) =
        startsPredicate word.kind kind) :
      ∃ outcome, Honest (runFollows level) (operatorStep (Grammar.apply true n) level left)
        (word :: front) outcome := by
    have step : ∃ outcome, Honest (runFollows level)
        (stepOf (Grammar.apply true n) level left word.kind kind) (word :: front) outcome :=
      serves_stepOf h left word.kind kind word front few
    obtain ⟨outcome, honest⟩ := step
    refine ⟨outcome, honest.congr fun good behind session faces => ?_⟩
    rw [operatorStep_eq_of_faces faces, List.cons_append, firstKind_cons, secondKind_cons, stepOf, stepOf,
      same behind]
  match front with
  | [] =>
    refine ⟨some (.done left, []), .at_end (continuations .adql level) ?_
      (fun kind => offers_operatorStep h left) ?_ ?_⟩
    · rintro _ _ ⟨⟩
      rfl
    · exact fun behind others => reads_operatorStep_done left (stops_of_not_mem_continuations others)
    · exact fun session behind position splits => gets_operatorStep h left few splits
  | [word] =>
    by_cases negation : word.kind = .keyword .NOT
    · by_cases tight : level ≤ PrecedenceTable.adql.predicateLevel
      · exact ⟨_, honest_operatorStep_negation h left negation tight few⟩
      · exact ⟨_, honest_operatorStep_loose left negation (Nat.lt_of_not_le tight)⟩
    · exact decided word [] .eof few fun behind => startsPredicate_of_ne negation _ _
  | word :: next :: front => exact decided word (next :: front) next.kind few fun behind => rfl

end

end Adql
