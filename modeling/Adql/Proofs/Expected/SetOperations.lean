import Adql.Proofs.Expected.Operators
import Adql.Proofs.RoundTrip.Queries

/-!
# Set operators

What is looked for behind an operand of a set operator really helps.  Operands of `UNION` and `EXCEPT`
are joined by `INTERSECT`, so behind an operand all three operators are looked for twice: by the inner
run, which goes on with `INTERSECT` only, and by the outer one, which goes on with the others.  To the
inner run these are loose (`looseOperators`): it notes them, and the outer run offers them.
-/

namespace Adql

open Adql.Parser Adql.Grammar

variable {α β : Type}

/-! ### Looking for a word behind the front -/

/-- A word is looked for behind the front. -/
theorem Gets.check_bind {offered : TokenKind → Prop} {outcome : Option (α × List Word)}
    {behind : List Word} {position : Nat} {session : Session} {kind : TokenKind} {p q : Parser α}
    (splits : session.Splits [] behind position) (listed : offered kind)
    (found : firstKind behind = kind → Gets offered outcome behind position session (p session))
    (missed : ∀ session : Session, session.Splits [] behind position → firstKind behind ≠ kind →
      Gets offered outcome behind position session (q session)) :
    Gets offered outcome behind position session
      ((check kind >>= fun there => if there = true then p else q) session) := by
  have current : session.current.kind = firstKind behind := splits.faces.current_kind
  change Gets _ _ _ _ _ (EStateM.bind _ _ session)
  rw [EStateM.bind, check_run, current]
  by_cases there : firstKind behind = kind
  · rw [if_pos there]
    exact found there
  · rw [if_neg there]
    refine (missed _ (splits.noting kind) there).of_noted fun other noted => ?_
    exact (Session.mem_notedAt_noting noted).imp_right fun ⟨_, same⟩ => same ▸ listed

/-- The value may be mapped, loose kinds stay loose. -/
theorem Honest.bind_pure {F loose : Set TokenKind} {p : Parser α} {front : List Word}
    {outcome : Option (α × List Word)} (h : Honest F p front outcome loose) (g : α → β) :
    Honest F (p >>= fun a => Pure.pure (g a)) front
      (outcome.map fun result => (g result.1, result.2)) loose := by
  have closes (a : α) : Closes F F (Pure.pure (g a)) := .pure subset_rfl _
  match outcome with
  | none => exact h.bind_stalls closes fun a => .pure _
  | some (a, rest) =>
    refine h.bind closes (fun a => .pure _) (.pure (g a) rest) ?_
    rintro rfl kind found
    exact .inr ⟨found, g a, rfl⟩

/-! ### The words that decide -/

/-- The set operator at the cursor is looked for word by word. -/
theorem setOperator?_bind_eq (f : Option SetOperator → Parser α) :
    setOperator? >>= f =
      check (.keyword .UNION) >>= fun there => if there = true then f (some .union) else
        check (.keyword .EXCEPT) >>= fun there => if there = true then f (some .except) else
          check (.keyword .INTERSECT) >>= fun there =>
            if there = true then f (some .intersect) else f none := by
  unfold setOperator? checkWord
  simp only [bind_assoc, ite_bind, pure_bind]

/-- The first word of the front tells the set operator. -/
theorem Honest.setOperator {F loose : Set TokenKind} {f : Option SetOperator → Parser α} {word : Word}
    {front : List Word} {outcome : Option (α × List Word)}
    (h : Honest F (f (setOperatorOf? word.kind)) (word :: front) outcome loose) :
    Honest F (setOperator? >>= f) (word :: front) outcome loose := by
  rw [setOperator?_bind_eq]
  by_cases union : word.kind = .keyword .UNION
  · rw [union] at h
    exact .check_found union h
  by_cases except : word.kind = .keyword .EXCEPT
  · rw [except] at h
    exact .check_missed union (.check_found except h)
  by_cases intersect : word.kind = .keyword .INTERSECT
  · rw [intersect] at h
    exact .check_missed union (.check_missed except (.check_found intersect h))
  · have none : setOperatorOf? word.kind = none := by
      cases some : setOperatorOf? word.kind with
      | none => rfl
      | some op =>
        have same := setOperatorOf?_eq_some.mp some
        cases op with
        | union => exact absurd same union
        | except => exact absurd same except
        | intersect => exact absurd same intersect
    rw [none] at h
    exact .check_missed union (.check_missed except (.check_missed intersect h))

/-- Behind the front, the set operators are looked for. -/
theorem Gets.setOperator {offered : TokenKind → Prop} {outcome : Option (α × List Word)}
    {behind : List Word} {position : Nat} {session : Session} {f : Option SetOperator → Parser α}
    (splits : session.Splits [] behind position)
    (listed : ∀ op : SetOperator, offered (.keyword op.keyword))
    (h : ∀ op? (session : Session), session.Splits [] behind position →
      (∀ op : SetOperator, op? = some op → firstKind behind = .keyword op.keyword) →
      Gets offered outcome behind position session (f op? session)) :
    Gets offered outcome behind position session ((setOperator? >>= f) session) := by
  have found (op : SetOperator) (session : Session) (splits : session.Splits [] behind position)
      (there : firstKind behind = .keyword op.keyword) :
      Gets offered outcome behind position session (f (some op) session) :=
    h (some op) session splits fun _ same => Option.some.inj same ▸ there
  rw [setOperator?_bind_eq]
  refine .check_bind splits (listed .union) (found .union session splits) fun session splits _ => ?_
  refine .check_bind splits (listed .except) (found .except session splits) fun session splits _ => ?_
  refine .check_bind splits (listed .intersect) (found .intersect session splits)
    fun session splits _ => ?_
  exact h none session splits nofun

/-! ### Steps -/

/-- The words of the set operators that are looser than a level. -/
def looseOperators (level : Nat) : Set TokenKind :=
  {kind | ∃ op : SetOperator, kind = .keyword op.keyword ∧ op.level < level}

/-- No operator is looser than `UNION`. -/
theorem looseOperators_union : looseOperators SetOperator.union.level = ∅ := by
  refine Set.eq_empty_of_forall_notMem ?_
  rintro _ ⟨op, -, loose⟩
  cases op <;> exact absurd loose (by decide)

/-- What comes of looking for one more set operator. -/
def setOf (operand : Parser QueryBody) (level : Nat) (left : QueryBody) :
    Option SetOperator → Parser (Step QueryBody)
  | none => pure (.done left)
  | some op =>
    if op.level < level then pure (.done left)
    else advance >>= fun _ => setTail operand op left

/-- A set operator goes on with the operands if it binds tight enough. -/
theorem setStep_eq (operand : Parser QueryBody) (level : Nat) (left : QueryBody) :
    setStep operand level left = setOperator? >>= setOf operand level left := by
  refine bind_congr fun op? => ?_
  cases op? with
  | none => rfl
  | some op => rfl

/-- A looser operator ends a run. -/
theorem setOf_loose {operand : Parser QueryBody} {level : Nat} {left : QueryBody} {op : SetOperator}
    (loose : op.level < level) : setOf operand level left (some op) = pure (.done left) :=
  if_pos loose

/-- An operator that binds tight enough goes on with a run. -/
theorem setOf_tight {operand : Parser QueryBody} {level : Nat} {left : QueryBody} {op : SetOperator}
    (tight : ¬op.level < level) :
    setOf operand level left (some op) = advance >>= fun _ => setTail operand op left :=
  if_neg tight

section

variable {operand : Parser QueryBody} {loose : Set TokenKind} {size level : Nat}
  (closes : Closes {.keyword .SELECT} queryEnds operand)

include closes

/-- Behind the word of a set operator, another operand can be completed. -/
theorem closes_setTail (op : SetOperator) (left : QueryBody) :
    Closes {.keyword .SELECT} queryEnds (setTail operand op left) :=
  .eat_missed (closes.bind fun _ => .pure subset_rfl _) nofun

/-- An operator that binds tight enough can be followed by another operand. -/
theorem offers_setStep {op : SetOperator} (tight : level ≤ op.level) (left : QueryBody) :
    Offers queryEnds (setStep operand level left) [] (.keyword op.keyword) := by
  have spelled : (TokenKind.keyword op.keyword).word.Spelled := rfl
  have offers := Offers.advance_bind (closes_setTail closes op left) spelled
  refine offers.of_reads fun behind next first final reads => ?_
  rw [setStep_eq]
  refine (reads_setOperator _).bind ?_
  rw [List.nil_append, setOperatorOf?_eq_some.mpr first, setOf_tight (Nat.not_lt_of_le tight)]
  exact reads

variable (stays : beyond.rel Eq operand operand)
  (honest : ∀ front, front.length < size → ∃ outcome, Honest queryEnds operand front outcome loose)

include stays honest

/-- What stands behind the word of a set operator. -/
theorem honest_setTail (op : SetOperator) (left : QueryBody) (front : List Word)
    (few : front.length < size) : ∃ outcome : Option (QueryBody × List Word),
      Honest queryEnds (setTail operand op left) front
        (outcome.map fun result => (.more result.1, result.2)) loose := by
  have rest (all : Bool) (front : List Word) (few : front.length < size) :
      ∃ outcome : Option (QueryBody × List Word), Honest queryEnds
        (operand >>= fun right => pure (Step.more (QueryBody.setOperation op all left right))) front
        (outcome.map fun result => (.more result.1, result.2)) loose := by
    obtain ⟨outcome, honest⟩ := honest front few
    refine ⟨outcome.map fun result => (.setOperation op all left result.1, result.2), ?_⟩
    rw [Option.map_map]
    exact honest.bind_pure _
  have spelled : (TokenKind.keyword .ALL).word.Spelled := rfl
  have more (all : Bool) : Closes {.keyword .SELECT} queryEnds
      (operand >>= fun right => pure (Step.more (QueryBody.setOperation op all left right))) :=
    closes.bind fun _ => .pure subset_rfl _
  have beyond' (all : Bool) :
      Beyond (operand >>= fun right => pure (Step.more (QueryBody.setOperation op all left right))) :=
    stays.2.bind fun _ => .pure _
  unfold setTail eatWord
  rw [eat_bind_eq]
  cases front with
  | nil =>
    obtain ⟨outcome, honest⟩ := rest false [] few
    exact ⟨outcome, .check_nil honest (.advance_bind (more true) spelled)
      (.advance_bind spelled.noEnd fun _ => beyond' true)⟩
  | cons word front =>
    by_cases all : word.kind = .keyword .ALL
    · obtain ⟨outcome, honest⟩ := rest true front (Nat.lt_of_succ_lt few)
      exact ⟨outcome, .check_found all honest.advance_bind⟩
    · obtain ⟨outcome, honest⟩ := rest false (word :: front) few
      exact ⟨outcome, .check_missed all honest⟩

/-- What comes of the set operator that the first word of the front tells. -/
theorem honest_setOf (left : QueryBody) (op? : Option SetOperator) (word : Word) (front : List Word)
    (few : front.length < size) :
    (∃ final rest, Honest queryEnds (setOf operand level left op?) (word :: front)
        (some (.done final, rest)) (looseOperators level)) ∨
      ∃ outcome : Option (QueryBody × List Word), Honest queryEnds (setOf operand level left op?)
        (word :: front) (outcome.map fun result => (.more result.1, result.2)) loose := by
  cases op? with
  | none => exact .inl ⟨left, _, .pure _ _⟩
  | some op =>
    by_cases looser : op.level < level
    · rw [setOf_loose looser]
      exact .inl ⟨left, _, .pure _ _⟩
    · rw [setOf_tight looser]
      obtain ⟨outcome, honest⟩ := honest_setTail closes stays honest op left front few
      exact .inr ⟨outcome, honest.advance_bind⟩

omit honest in
/-- Behind the front, the operators that bind tight enough are offered, and the run is done in front of
anything else. -/
theorem honest_setStep_end (left : QueryBody) :
    Honest queryEnds (setStep operand level left) [] (some (.done left, [])) (looseOperators level) := by
  refine ⟨?_, fun kind => ?_, fun session behind position splits => ?_⟩
  · rintro _ _ ⟨⟩
    exact Nat.le_refl _
  · by_cases tight : ∃ op : SetOperator, kind = .keyword op.keyword ∧ level ≤ op.level
    · obtain ⟨op, rfl, tight⟩ := tight
      exact .inl (offers_setStep closes tight left)
    · refine .inr fun behind first => reads_setStep_done left fun op same => ?_
      by_contra loose
      exact tight ⟨op, first.symm.trans (setOperatorOf?_eq_some.mp same), Nat.le_of_not_lt loose⟩
  · rw [setStep_eq]
    refine .setOperator splits (fun op => ?_) fun op? session splits there => ?_
    · by_cases tight : level ≤ op.level
      · exact .inl (setStep_eq operand level left ▸ offers_setStep closes tight left)
      · exact .inr ⟨⟨op, rfl, Nat.lt_of_not_le tight⟩, _, rfl⟩
    · cases op? with
      | none => exact .pure splits _
      | some op =>
        by_cases looser : op.level < level
        · rw [setOf_loose looser]
          exact .pure splits _
        · rw [setOf_tight looser]
          have noEnd : TokenKind.keyword op.keyword ≠ .eof := nofun
          have tail : Beyond (setTail operand op left) :=
            (Beyond.eat _).bind fun _ => stays.2.bind fun _ => .pure _
          refine (Takes.advance_bind noEnd (fun _ => tail) session behind position splits
            (there op rfl)).of_takes (.inl ?_)
          have offers := offers_setStep closes (Nat.le_of_not_lt looser) left
          rw [setStep_eq] at offers
          exact offers

/-- One more set operator. -/
theorem honest_setStep (left : QueryBody) (front : List Word) (few : front.length < size) :
    (∃ final rest, Honest queryEnds (setStep operand level left) front (some (.done final, rest))
        (looseOperators level)) ∨
      ∃ outcome : Option (QueryBody × List Word), Honest queryEnds (setStep operand level left) front
        (outcome.map fun result => (.more result.1, result.2)) loose := by
  cases front with
  | nil => exact .inl ⟨left, [], honest_setStep_end closes stays left⟩
  | cons word front =>
    rw [setStep_eq]
    exact (honest_setOf closes stays honest left (setOperatorOf? word.kind) word front
        (Nat.lt_of_succ_lt few)).imp
      (fun ⟨final, rest, honest⟩ => ⟨final, rest, honest.setOperator⟩)
      fun ⟨outcome, honest⟩ => ⟨outcome, honest.setOperator⟩

variable (same : nearby.rel Eq operand operand)
  (shorter : ∀ state words state' rest, Reads (setStep operand level state) words (.more state') rest →
    rest.length < words.length)
  (tight : ∀ kind ∈ loose, ∃ op : SetOperator, kind = .keyword op.keyword ∧ level ≤ op.level)

include same shorter tight

/-- Operands with set operators between them.  What is loose behind an operand is offered by the run
around it. -/
theorem honest_setOperations (front : List Word) (few : front.length < size) :
    ∃ outcome, Honest queryEnds (setOperations operand level) front outcome (looseOperators level) := by
  have steps := nearby.rel_setStep same level
  have closing (left : QueryBody) : Closes queryEnds queryEnds (iterate (setStep operand level) left) :=
    .iterate fun behind follows => reads_setStep_end follows
  have resolved (left : QueryBody) : ∀ kind ∈ loose,
      Offers queryEnds (iterate (setStep operand level) left) [] kind := by
    intro kind found
    obtain ⟨op, rfl, tight⟩ := tight kind found
    exact Honest.offers_iterate steps shorter subset_rfl closing (offers_setStep closes tight left)
  have stepsBeyond (left : QueryBody) : Beyond (setStep operand level left) :=
    (beyond.rel_setStep stays level left).2
  obtain ⟨outcome, first⟩ := honest front few
  match outcome with
  | none => exact ⟨none, first.bind_stalls closing fun left => .iterate stepsBeyond left⟩
  | some (left, rest) =>
    have fewer := first.shorter left rest rfl
    obtain ⟨outcome, run⟩ := Honest.iterate steps shorter stepsBeyond subset_rfl closing resolved
      (honest_setStep closes stays honest) rest (Nat.lt_of_le_of_lt fewer few) left
    exact ⟨outcome, first.bind closing (fun left => .iterate stepsBeyond left) run fun _ kind found =>
      .inl (resolved left kind found)⟩

end

/-! ### Rules -/

section

variable {size rank n : Nat} (h : HelpfulRules size rank n)

include h

/-- A query body. -/
theorem helpful_queryBody (ranks : 2 < rank) :
    Helpful size queryEnds (queryBody (Grammar.apply true n)) := by
  have closing : firstKind [TokenKind.rightParen.word] = .rightParen := rfl
  have term : Closes {.keyword .SELECT} queryEnds (Grammar.apply true n .queryTerm) := h.closes .queryTerm
  have run : Closes {.keyword .SELECT} queryEnds
      (setOperations (Grammar.apply true n .queryTerm) SetOperator.intersect.level) :=
    term.bind fun _ => .iterate fun _ => reads_setStep_end
  have carried : Carried [TokenKind.rightParen.word] 0 0 (Grammar.apply true n .queryTerm) :=
    (apply_carries closing n).carried .queryTerm fun _ => trivial
  have stays := beyond.rel_setOperations (apply_beyond n .queryTerm) SetOperator.intersect.level
  have tight : ∀ kind ∈ looseOperators SetOperator.intersect.level,
      ∃ op : SetOperator, kind = .keyword op.keyword ∧ SetOperator.union.level ≤ op.level := by
    rintro kind ⟨op, same, -⟩
    exact ⟨op, same, by cases op <;> decide⟩
  have inner (front : List Word) (few : front.length < size) : ∃ outcome, Honest queryEnds
      (setOperations (Grammar.apply true n .queryTerm) SetOperator.intersect.level) front outcome
      (looseOperators SetOperator.intersect.level) :=
    honest_setOperations term (apply_beyond n .queryTerm)
      ((h.here .queryTerm ranks).helpful rfl).honest (h.nearby .queryTerm)
      (fun _ _ _ _ => (carried_setStep (.inl closing) carried _).shorter)
      (fun _ found => absurd found (Set.notMem_empty _)) front few
  refine ⟨(beyond.rel_setOperations stays SetOperator.union.level).2, fun front few => ?_⟩
  have outer : ∃ outcome, Honest queryEnds (setOperations
      (setOperations (Grammar.apply true n .queryTerm) SetOperator.intersect.level)
      SetOperator.union.level) front outcome (looseOperators SetOperator.union.level) :=
    honest_setOperations run stays inner (nearby.rel_setOperations (h.nearby .queryTerm) _)
      (fun _ _ _ _ => (carried_setStep (.inl closing) (carried_setOperations (.inl closing) carried _)
        _).shorter) tight front few
  obtain ⟨outcome, honest⟩ := outer
  exact ⟨outcome, looseOperators_union ▸ honest⟩

/-- An operand of a set operator. -/
theorem helpful_queryTerm (ranks : 1 < rank) :
    Helpful size queryEnds (queryTerm (Grammar.apply true n)) := by
  have deep := h.deep
  obtain ⟨less, rfl⟩ : ∃ less, n = less + 1 := ⟨n - 1, by omega⟩
  have stays := (beyond.rel_queryTerm fun rule => apply_beyond (less + 1) rule).2
  cases size with
  | zero => exact ⟨stays, fun front few => absurd few (Nat.not_lt_zero _)⟩
  | succ size =>
    have spec : Ready (size + 1) {.keyword .SELECT} queryEnds
        (Grammar.apply true (less + 1) .querySpec >>= fun spec => pure (QueryBody.spec spec)) :=
      (h.ready .querySpec ranks rfl).bind fun _ => .pure subset_rfl _
    have nested (query : Query) : Ready size {.rightParen} queryEnds (do
        let _ ← expect .rightParen
        return QueryBody.nested query) := .expect_bind rfl (.done _)
    have noEnd : TokenKind.keyword .SELECT ≠ .eof := nofun
    have differs : TokenKind.rightParen ≠ .keyword .SELECT := nofun
    have follows : TokenKind.rightParen ∈ queryEnds := List.mem_cons_self
    obtain ⟨outcome, honest⟩ := spec.honest [] (Nat.succ_pos size)
    refine .check_bind (fun word front _ few => spec.honest (word :: front) few) spec.beyond
      (spec.closes.offers differs follows) ?_
      (.eat_bind rfl (h.query.bind nested) .fail)
    refine honest.takes_of_stalls (fun words other => ?_) noEnd follows
    exact .bind_left (.apply (.bind_left (.bind_left (.expect other))))

end

end Adql
