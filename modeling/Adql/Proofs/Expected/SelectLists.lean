import Adql.Proofs.Expected.Operands

/-!
# Select lists

What is looked for in a select list really helps.  Behind a name, a point may start a wildcard or go on
with an expression, and both are tried.  So if the front ends in front of an item, or behind a name that
starts one, the item goes on with the wildcard or the expression in front of some words, and with the
expression in front of all others.
-/

namespace Adql

open Adql.Parser Adql.Grammar

variable {α : Type}

/-! ### Parsers that read less -/

namespace Honest

variable {F : Set TokenKind} {p q : Parser α} {front : List Word}
  {outcome outcome' : Option (α × List Word)}

/-- A parser that reads only what another one reads notes only what that one offers. -/
theorem gets_of_reads (hp : Honest F p front outcome') (hq : Honest F q front outcome)
    (reads : ∀ words a rest, Reads p words a rest → Reads q words a rest) {session : Session}
    {behind : List Word} {position : Nat} (splits : session.Splits front behind position) :
    Gets (Offers F q front) outcome behind position session (p session) := by
  have offered : Gets (Offers F q front) outcome' behind position session (p session) :=
    (hp.gets session behind position splits).mono fun kind noted => noted.elim
      (fun offers => offers.of_reads fun _ _ _ _ => reads _ _ _)
      fun never => absurd never.1 (Set.notMem_empty _)
  match outcome' with
  | none => exact offered.of_none
  | some (a, rest) =>
    have does := hq.does
    have read := reads _ _ _ hp.does
    match outcome with
    | none => exact absurd does read.not_stalls
    | some (b, rest') =>
      obtain ⟨rfl, same⟩ := read.unique does
      rw [List.append_nil, List.append_nil] at same
      exact same ▸ offered

end Honest

/-! ### Wildcards -/

/-- All columns of a table. -/
theorem helpful_qualifiedWildcard {size : Nat} : Helpful size Set.univ qualifiedWildcard := by
  have closing : firstKind [TokenKind.rightParen.word] = .rightParen := rfl
  have name (state : Array Identifier × Bool) : Helpful (size - 1) Set.univ (do
      pure (Step.more (state.1.push (← identifier), false))) :=
    Ready.identifier.toHelpful.bind fun _ => .pure subset_rfl _
  have step (state : Array Identifier × Bool) : Helpful size Set.univ (wildcardStep state) :=
    .expect_bind rfl (Ready.eat_found rfl (.pure subset_rfl _) (name state))
  have closes (state : Array Identifier × Bool) :
      Closes Set.univ Set.univ (iterate wildcardStep state) := by
    refine ⟨[TokenKind.dot.word, TokenKind.star.word], (state.1, true), spelled_pointStar, fun behind _ =>
      ⟨trivial, ?_⟩⟩
    exact (Repeats.refl _ _).iterate (.expect_bind rfl ((Reads.eat_true rfl).bind (.pure _ _)))
  refine Ready.identifier.toHelpful.bind fun first => .bind (H := Set.univ) ⟨.iterate
    nearby.rel_wildcardStep (fun _ _ _ _ => (carried_wildcardStep (.inl closing)).shorter) subset_rfl closes
    step _, closes _⟩ fun _ => .pure subset_rfl _

/-- A name, a point and a star are a wildcard. -/
theorem exists_reads_wildcard {word : Word} (named : word.kind.isIdentifier = true) :
    ∃ item, ∀ behind, Reads qualifiedWildcard
      (word :: TokenKind.dot.word :: TokenKind.star.word :: behind) item behind := by
  obtain ⟨name, reads⟩ := exists_reads_name named
  refine ⟨.unnamed (.wildcard [name]), fun behind => (reads _).bind ?_⟩
  have step : Reads (wildcardStep (#[name], false))
      (TokenKind.dot.word :: TokenKind.star.word :: behind) (.done (#[name], true)) behind :=
    .expect_bind rfl ((Reads.eat_true rfl).bind (.pure _ _))
  exact ((Repeats.refl _ _).iterate step).bind (.pure _ _)

/-- In front of anything but a name, there is no wildcard. -/
theorem stalls_qualifiedWildcard {words : List Word} (noName : (firstKind words).isIdentifier = false) :
    Stalls qualifiedWildcard words :=
  .bind_left (identifier_stalls noName)

/-- Behind a name, in front of anything but a point, there is no wildcard. -/
theorem stalls_qualifiedWildcard_named {word : Word} (named : word.kind.isIdentifier = true)
    {words : List Word} (noDot : firstKind words ≠ .dot) :
    Stalls qualifiedWildcard (word :: words) := by
  have closing : firstKind [TokenKind.rightParen.word] = .rightParen := rfl
  obtain ⟨name, reads⟩ := exists_reads_name named
  refine .bind_right (reads words) (.bind_left (Honest.stalls_iterate nearby.rel_wildcardStep
    (fun _ _ _ _ => (carried_wildcardStep (.inl closing)).shorter) (.bind_left (.expect noDot))))

/-! ### Items -/

section

variable (apply : (rule : Rule) → Parser rule.Result)

/-- An item that may be a wildcard, or is an expression. -/
def itemOf (wildcard : Bool) : Parser SelectItem :=
  if wildcard then firstOf (apply .qualifiedWildcard) (apply .derivedColumn)
  else derivedColumn apply

/-- Does a name with a point come first? -/
def startsWildcard (words : List Word) : Bool :=
  (firstKind words).isIdentifier && secondKind words = .dot

/-- The first two words tell whether an item may be a wildcard. -/
theorem selectItem_eq_of_faces {words : List Word} {session : Session} {good : Word → Prop}
    (faces : session.Faces words .adql good) :
    selectItem apply session = itemOf apply (startsWildcard words) session := by
  have decided : selectItem apply session = itemOf apply
      (session.current.kind.isIdentifier && (session.cursor.peek 1).kind = .dot) session := rfl
  rw [decided, faces.current_kind, faces.next_kind, startsWildcard]

end

section

variable {size rank n : Nat} (h : HelpfulRules size rank n)

include h

/-- An expression with an optional name. -/
theorem helpful_derivedColumn (ranks : 4 < rank) :
    Helpful size {.keyword .FROM} (derivedColumn (Grammar.apply true n)) := by
  have deep := h.deep
  obtain ⟨less, rfl⟩ : ∃ less, n = less + 1 := ⟨n - 1, by omega⟩
  have expr : Helpful size {.keyword .FROM} (Grammar.apply true (less + 1) .expression) :=
    ((h.here .expression ranks).helpful rfl).mono (singleton_subset_runEnds rfl 0)
  have name : Ready size {.keyword .FROM} {.keyword .FROM}
      (optional (Grammar.apply true (less + 1) .aliasName)) :=
    .optional rfl (definite_aliasName less) (.apply ready_aliasName.toHelpful) fun behind follows =>
      stalls_aliasName (follows ▸ nofun) (follows ▸ rfl)
  exact expr.bind fun _ => name.bind fun _ => .pure subset_rfl _

variable (ranks : 5 < rank)

include ranks

/-- An item that may be a wildcard, where there is no wildcard in front of all but some kinds. -/
theorem gets_wildcardOrColumn {kinds : List TokenKind} {front : List Word}
    {outcome : Option (SelectItem × List Word)} (few : front.length < size)
    (stalls : ∀ behind, firstKind behind ∉ kinds → Stalls qualifiedWildcard (front ++ behind))
    (noEnd : .eof ∉ kinds)
    (honest : Honest {.keyword .FROM} (derivedColumn (Grammar.apply true n)) front outcome)
    {session : Session} {behind : List Word} {position : Nat}
    (splits : session.Splits front behind position) :
    Gets (fun kind => Offers {.keyword .FROM} (derivedColumn (Grammar.apply true n)) front kind ∨
      kind ∈ kinds) outcome behind position session
      (firstOf (Grammar.apply true n .qualifiedWildcard) (Grammar.apply true n .derivedColumn)
        session) := by
  have deep := h.deep
  obtain ⟨less, rfl⟩ : ∃ less, n = less + 1 := ⟨n - 1, by omega⟩
  have wildcard : Helpful size Set.univ (Grammar.apply true (less + 1) .qualifiedWildcard) :=
    .apply helpful_qualifiedWildcard
  obtain ⟨_, first⟩ := wildcard.honest front few
  obtain ⟨_, second⟩ := ((h.here .derivedColumn ranks).helpful rfl).honest front few
  have reads (words : List Word) (item : SelectItem) (rest : List Word)
      (reads : Reads (Grammar.apply true (less + 1) .derivedColumn) words item rest) :
      Reads (derivedColumn (Grammar.apply true (less + 1))) words item rest :=
    reads.body.of_nearby (nearby.rel_derivedColumn (nearby_apply (Nat.le_succ less)))
  have trying : session.trying.Splits front behind position := splits.of_eq rfl rfl rfl rfl
  refine .firstOf ?_ fun failure after run alive => ?_
  · exact (first.gets_of_stalls (fun behind others => .apply (stalls behind others)) noEnd
      (Set.mem_univ .comma) trying).of_none.mono fun _ => .inr
  · have again : after.settled.trying.Splits front behind position :=
      (Honest.splits_of_error rfl trying run alive).of_eq rfl rfl rfl rfl
    exact (second.gets_of_reads honest reads again).mono fun _ => .inl

/-- An item, where there may be a wildcard only in front of some kinds behind the front. -/
theorem honest_selectItem (kinds : List TokenKind) {front : List Word} (few : front.length < size)
    (stalls : ∀ behind, firstKind behind ∉ kinds → Stalls qualifiedWildcard (front ++ behind))
    (noEnd : .eof ∉ kinds)
    (others : ∀ behind, firstKind behind ∉ kinds → startsWildcard (front ++ behind) = false)
    (offered : ∀ kind ∈ kinds,
      Offers {.keyword .FROM} (selectItem (Grammar.apply true n)) front kind) :
    ∃ outcome, Honest {.keyword .FROM} (selectItem (Grammar.apply true n)) front outcome := by
  have column : Helpful size {.keyword .FROM} (derivedColumn (Grammar.apply true n)) :=
    helpful_derivedColumn h (Nat.lt_of_succ_lt ranks)
  obtain ⟨outcome, honest⟩ := column.honest front few
  refine ⟨outcome, honest.dispatch kinds (fun good behind session faces other => ?_) offered
    fun session behind position splits _ => ?_⟩
  · rw [selectItem_eq_of_faces _ faces, others behind other]
    rfl
  · rw [selectItem_eq_of_faces _ splits.faces]
    cases startsWildcard (front ++ behind) with
    | true => exact gets_wildcardOrColumn h ranks few stalls noEnd honest splits
    | false =>
      exact (honest.gets session behind position splits).mono fun kind noted =>
        .inl (noted.elim id fun never => absurd never.1 (Set.notMem_empty _))

omit ranks in
/-- A name, a point and a star are an item. -/
theorem exists_reads_item {word : Word} (named : word.kind.isIdentifier = true) :
    ∃ item, ∀ behind, Reads (selectItem (Grammar.apply true n))
      (word :: TokenKind.dot.word :: TokenKind.star.word :: behind) item behind := by
  have deep := h.deep
  obtain ⟨less, rfl⟩ : ∃ less, n = less + 1 := ⟨n - 1, by omega⟩
  obtain ⟨item, reads⟩ := exists_reads_wildcard named
  refine ⟨item, fun behind good session faces => ?_⟩
  have wildcard : startsWildcard (word :: TokenKind.dot.word :: TokenKind.star.word :: behind) = true := by
    rw [startsWildcard, firstKind_cons, secondKind_cons, named]
    rfl
  rw [selectItem_eq_of_faces _ faces, wildcard]
  have rule : Reads (Grammar.apply true (less + 1) .qualifiedWildcard) _ item behind :=
    .apply (reads behind)
  exact rule.firstOf_left good session faces

/-- An item that is told. -/
theorem helpful_itemOf (wildcard : Bool) :
    Helpful size {.keyword .FROM} (itemOf (Grammar.apply true n) wildcard) := by
  have deep := h.deep
  obtain ⟨less, rfl⟩ : ∃ less, n = less + 1 := ⟨n - 1, by omega⟩
  have columns : Helpful size Set.univ (Grammar.apply true (less + 1) .qualifiedWildcard) :=
    .apply helpful_qualifiedWildcard
  cases wildcard with
  | true =>
    exact (columns.mono (Set.subset_univ _)).firstOf rfl (definite_qualifiedWildcard less)
      ((h.here .derivedColumn ranks).helpful rfl)
  | false => exact helpful_derivedColumn h (Nat.lt_of_succ_lt ranks)

/-- An item of a select list. -/
theorem helpful_selectItem :
    Helpful size {.keyword .FROM} (selectItem (Grammar.apply true n)) := by
  have deep := h.deep
  have stays := (beyond.rel_selectItem fun rule => apply_beyond n rule).2
  have decided (front : List Word) (few : front.length < size) (wildcard : Bool)
      (same : ∀ behind, startsWildcard (front ++ behind) = wildcard) :
      ∃ outcome, Honest {.keyword .FROM} (selectItem (Grammar.apply true n)) front outcome := by
    obtain ⟨outcome, honest⟩ := (helpful_itemOf h ranks wildcard).honest front few
    refine ⟨outcome, honest.congr fun good behind session faces => ?_⟩
    rw [selectItem_eq_of_faces _ faces, same behind]
  refine ⟨stays, fun front few => ?_⟩
  match front with
  | [] =>
    have names : ∀ kind ∈ TokenKind.all,
        kind ∉ [TokenKind.identifier, .delimitedIdentifier] → kind.isIdentifier = false := by decide
    have noName (behind : List Word)
        (other : firstKind behind ∉ [TokenKind.identifier, .delimitedIdentifier]) :
        (firstKind behind).isIdentifier = false := names _ (TokenKind.mem_all _) other
    refine honest_selectItem h ranks [.identifier, .delimitedIdentifier] few
      (fun behind other => stalls_qualifiedWildcard (noName behind other)) (by decide)
      (fun behind other => ?_) fun kind listed => ?_
    · rw [List.nil_append, startsWildcard, noName behind other, Bool.false_and]
    · have offers (word : Word) (named : word.kind.isIdentifier = true) (spelled : word.Spelled) :
          Offers {.keyword .FROM} (selectItem (Grammar.apply true n)) [] word.kind := by
        obtain ⟨item, reads⟩ := exists_reads_item h named
        exact ⟨word, [TokenKind.dot.word, TokenKind.star.word], item, rfl,
          List.forall_mem_cons.mpr ⟨spelled, spelled_pointStar⟩, fun behind _ => reads behind⟩
      rw [List.mem_pair] at listed
      rcases listed with rfl | rfl
      · exact offers nameWord rfl spelled_nameWord
      · exact offers delimitedWord rfl spelled_delimitedWord
  | [word] =>
    by_cases named : word.kind.isIdentifier = true
    · refine honest_selectItem h ranks [.dot] few (fun behind other => ?_) (by decide)
        (fun behind other => ?_) fun kind listed => ?_
      · exact stalls_qualifiedWildcard_named named fun same => other (List.mem_singleton.mpr same)
      · rw [List.singleton_append, startsWildcard, secondKind_cons, firstKind_cons, named, Bool.true_and]
        exact decide_eq_false fun same => other (List.mem_singleton.mpr same)
      · obtain rfl := List.mem_singleton.mp listed
        obtain ⟨item, reads⟩ := exists_reads_item h named
        exact ⟨TokenKind.dot.word, [TokenKind.star.word], item, rfl, spelled_pointStar,
          fun behind _ => reads behind⟩
    · refine decided [word] few false fun behind => ?_
      rw [List.singleton_append, startsWildcard, firstKind_cons, Bool.eq_false_iff.mpr named,
        Bool.false_and]
  | word :: next :: front =>
    exact decided (word :: next :: front) few (word.kind.isIdentifier && next.kind = .dot) fun behind => rfl

end

/-! ### Lists of items -/

section

variable {size rank n : Nat} (h : HelpfulRules size rank n) (ranks : 6 < rank)

include h ranks

/-- A select list. -/
theorem helpful_selectList :
    Helpful size {.keyword .FROM} (selectList (Grammar.apply true n)) := by
  have item : Ready size {.identifier} {.keyword .FROM} (Grammar.apply true n .selectItem) :=
    h.ready .selectItem ranks rfl
  have items : Ready size {.identifier} {.keyword .FROM}
      (oneOrMore .comma (Grammar.apply true n .selectItem)) :=
    .oneOrMore rfl (h.nearby .selectItem) (apply_moving true n .selectItem) item nofun
  have some : Helpful size {.keyword .FROM} (someItems (Grammar.apply true n .selectItem)) := by
    refine items.toHelpful.congr (beyond.rel_someItems (apply_beyond n .selectItem)).2
      fun good words session faces => ?_
    have strict : session.canRecover = false := by
      simp [Session.canRecover, faces.strict]
    have decided : someItems (Grammar.apply true n .selectItem) session = (if session.canRecover then do
        return (← iterate (itemStep (Grammar.apply true n .selectItem)) #[]).toList
      else oneOrMore .comma (Grammar.apply true n .selectItem)) session := rfl
    rw [decided, strict, if_neg Bool.false_ne_true]
  have all : Ready (size - 1) {.keyword .FROM} {.keyword .FROM}
      (pure [SelectItem.unnamed (.wildcard [])]) := .pure subset_rfl _
  exact .eat_bind rfl all some

end

end Adql
