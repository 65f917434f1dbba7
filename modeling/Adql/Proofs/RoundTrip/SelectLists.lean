import Adql.Proofs.RoundTrip.Tables

/-!
# Select lists are kept

The bodies of the rules for select lists and their items keep what they read, if the rules that they
apply do.
-/

namespace Adql

open Adql.Parser Adql.Grammar

/-! ### Wildcards -/

/-- The words of a wildcard: each qualifying name behind the first one stands behind a point. -/
theorem qualifierWords_cons (first : Identifier) (others : List Identifier) :
    qualifierWords (first :: others) ++ [TokenKind.star.word] =
      first.word :: ((others.flatMap fun name => [TokenKind.dot.word, name.word]) ++
        [TokenKind.dot.word, TokenKind.star.word]) := by
  induction others generalizing first with
  | nil => rfl
  | cons second others ih =>
    rw [qualifierWords, List.cons_append, List.cons_append, ih]
    rfl

/-- A qualifier of a wildcard is kept with the point in front of it, and so is the star. -/
theorem wildcardStep_kept (state : Array Identifier × Bool) (words : List Word) :
    Ensures (wildcardStep state) words (AfterStep
      (fun next rest => ∃ name, next = (state.1.push name, false) ∧ rest.length < words.length ∧
        firstKind words = .dot ∧
        Kept (wildcardStep state) [TokenKind.dot.word, name.word] (fun _ => True) words (.more next)
          rest)
      (fun final rest => final = (state.1, true) ∧ firstKind words = .dot ∧
        Kept (wildcardStep state) [TokenKind.dot.word, TokenKind.star.word] (fun _ => True) words
          (.done final) rest)) := by
  refine .expect_bind nofun fun word inner split point => ?_
  subst split
  refine .eat_bind nofun (fun word' rest split hkind => .pure ⟨rfl, point, ?_⟩) fun _ => ?_
  · subst split
    exact .expect (.eat (.pure _ rest) hkind rfl) point rfl
  · refine ((identifier_kept inner).length_le moving.rel_identifier).bind ?_
    rintro name rest ⟨⟨kept, word', split, _, named, _⟩, shorter⟩
    refine .pure ⟨name, rfl, Nat.lt_succ_of_le shorter, point, .expect ?_ point rfl⟩
    refine .eat_missed kept.bind_pure fun _ _ => ?_
    intro star
    have star : name.word.kind = .star := star
    rw [star] at named
    cases named

/-- All columns of a table are kept. -/
theorem qualifiedWildcard_kept (words : List Word) :
    Ensures qualifiedWildcard words fun item rest =>
      Kept qualifiedWildcard (item.words false) (fun _ => True) words item rest ∧
      SameStart words (item.words false) := by
  refine (identifier_kept words).bind fun first inner ⟨keptFirst, starts⟩ => ?_
  obtain ⟨word, rfl, source, written, function⟩ := starts
  have loop := Ensures.iterate_kept wildcardStep (#[first], false) inner
    (H := fun ahead _ => firstKind ahead = .dot) (D := fun _ _ => True)
    (P := fun state emitted => ∃ others, state.1.toList = first :: others ∧
      emitted = others.flatMap fun name => [TokenKind.dot.word, name.word])
    (Q := fun state emitted => ∃ others, state.1.toList = first :: others ∧
      emitted = (others.flatMap fun name => [TokenKind.dot.word, name.word]) ++
        [TokenKind.dot.word, TokenKind.star.word])
    ⟨[], rfl, rfl⟩ fun state emitted words ⟨others, hstate, hemitted⟩ => by
      refine (wildcardStep_kept state words).mono fun step rest hstep => ?_
      cases step with
      | more next =>
        obtain ⟨name, rfl, shorter, point, kept⟩ := hstep
        refine ⟨_, List.cons_ne_nil _ _, shorter, ⟨others ++ [name], ?_, ?_⟩,
          kept.follow fun _ _ => trivial, fun _ _ => point⟩
        · rw [Array.toList_push, hstate, List.cons_append]
        · simp [hemitted]
      | done final =>
        obtain ⟨rfl, point, kept⟩ := hstep
        exact ⟨_, ⟨others, hstate, by rw [hemitted]⟩, kept, fun _ _ => point⟩
  refine loop.bind fun state rest ⟨bare, ⟨others, hstate, hbare⟩, kept, links⟩ => .pure ?_
  have hwords : (SelectItem.unnamed (.wildcard state.1.toList)).words false =
      first.word :: bare := by
    rw [hbare, ← qualifierWords_cons, ← hstate]
    exact List.append_nil _
  rw [hwords]
  have point : firstKind bare = .dot := by
    rw [hbare]
    cases others <;> rfl
  refine ⟨?_, .name source written function ⟨fun _ => point, fun _ => links [] trivial⟩⟩
  exact keptFirst.bind (f := fun first => iterate wildcardStep (#[first], false) >>= fun state =>
    pure (SelectItem.unnamed (.wildcard state.1.toList))) kept.bind_pure fun _ _ => trivial

section

variable {apply : (rule : Rule) → Parser rule.Result} (keeps : KeepsRules apply)

include keeps

/-! ### Items -/

/-- An expression with an optional name is kept. -/
theorem derivedColumn_kept (words : List Word) :
    Ensures (derivedColumn apply) words fun item rest =>
      Kept (derivedColumn apply) (item.words false) (fun behind => firstKind behind ∈ afterItem?)
        words item rest ∧
      SameStart words (item.words false) := by
  refine (expression_kept keeps words).bind fun expr middle ⟨keptExpr, start⟩ => ?_
  refine (optionalAlias_kept keeps middle).bind fun alias? rest keptAlias => .pure ?_
  have noDot : firstKind (aliasWords alias? ++ []) ≠ .dot := by
    cases alias? <;> nofun
  rw [List.append_nil] at noDot
  refine ⟨.bind keptExpr (keptAlias.bind_pure.follow ?_) ?_, start.append noDot⟩
  · intro behind h
    generalize firstKind behind = kind at h
    revert kind
    decide
  · intro behind h
    rcases firstKind_aliasWords alias? behind with found | found
    · rw [found]
      rfl
    · rw [found]
      exact endsExpression_of_mem h (by decide)

omit keeps in
/-- Both start with a name and a point, or none does. -/
theorem SameStart.qualified {words words' behind : List Word} (h : SameStart words words')
    (hbehind : firstKind behind ≠ .dot) :
    ((firstKind (words' ++ behind)).isIdentifier &&
        decide (secondKind (words' ++ behind) = .dot)) =
      ((firstKind words).isIdentifier && decide (secondKind words = .dot)) := by
  rw [h.firstKind_append, h.firstKind_congr TokenKind.isIdentifier rfl]
  cases named : (firstKind words).isIdentifier with
  | false => rfl
  | true =>
    obtain ⟨_, inner, _, inner', rfl, rfl, _, _, dot⟩ := h.named named
    rw [List.cons_append, secondKind_cons, secondKind_cons]
    refine congrArg (true && ·) (decide_eq_decide.mpr ?_)
    rw [dot]
    cases inner' with
    | nil => exact ⟨fun h => absurd h hbehind, nofun⟩
    | cons _ _ => exact Iff.rfl

/-- An item of a select list is kept. -/
theorem selectItem_kept (words : List Word) :
    Ensures (selectItem apply) words fun item rest =>
      Kept (selectItem apply) (item.words false) (fun behind => firstKind behind ∈ afterItem?)
        words item rest ∧
      SameStart words (item.words false) := by
  have noDot {behind : List Word} (h : firstKind behind ∈ afterItem?) : firstKind behind ≠ .dot := by
    intro h'
    rw [h'] at h
    exact absurd h (by decide)
  -- both look the same behind the name and the point
  have again {p q : Parser SelectItem} {item : SelectItem} {behind : List Word} (condition : Bool)
      (start : SameStart words (item.words false)) (hbehind : firstKind behind ∈ afterItem?)
      (hcondition : ((firstKind words).isIdentifier && decide (secondKind words = .dot)) = condition)
      (hread : Reads (if condition = true then p else q) (item.words false ++ behind) item behind) :
      Reads (do if (← currentKind).isIdentifier && (← nextKind) = .dot then p else q)
        (item.words false ++ behind) item behind := by
    refine (Reads.currentKind _).bind ((Reads.nextKind _).bind ?_)
    rw [start.qualified (noDot hbehind), hcondition]
    exact hread
  refine .reads_bind (.currentKind words) (.reads_bind (.nextKind words) (.ite (fun qualified => ?_)
    fun other => ?_))
  · refine .firstOf ?_ (keeps.settles _ _ rfl) fun fails => ?_
    · refine (keeps.preserves .qualifiedWildcard words trivial).mono fun item rest ⟨kept, start, _⟩ => ⟨?_, start⟩
      have kept := kept.follow (G := fun behind => firstKind behind ∈ afterItem?) fun _ _ => trivial
      exact kept.of_reads fun behind hbehind hread =>
        again true start hbehind qualified (.firstOf_left hread)
    · refine ((keeps.preserves .derivedColumn words trivial).and (keeps.wildcardFails words fails)).mono ?_
      refine fun item rest ⟨⟨kept, start, _⟩, fails'⟩ => ⟨?_, start⟩
      exact kept.of_reads fun behind hbehind hread =>
        again true start hbehind qualified (.firstOf_right (fails' behind hbehind) hread)
  · refine (derivedColumn_kept keeps words).mono fun item rest ⟨kept, start⟩ => ⟨?_, start⟩
    exact kept.of_reads fun behind hbehind hread =>
      again (p := firstOf (apply .qualifiedWildcard) (apply .derivedColumn)) false start hbehind
        (Bool.eq_false_iff.mpr other) hread

/-- A select list is kept; it starts with no word that may stand in front of it. -/
theorem selectList_kept (words : List Word) :
    Ensures (selectList apply) words fun items rest =>
      Kept (selectList apply) (separated .comma (items.map (SelectItem.words false)))
        (fun behind => firstKind behind = .keyword .FROM) words items rest ∧
      ∀ behind, firstKind (separated .comma (items.map (SelectItem.words false)) ++ behind) ∉
        [.keyword .DISTINCT, .keyword .ALL, .keyword .TOP] := by
  refine .eat_bind nofun (fun word rest split hkind => .pure ?_) fun missed => ?_
  · subst split
    exact ⟨.eat (.pure _ rest) hkind rfl, fun _ => show TokenKind.star ∉ _ by decide⟩
  · refine .reads_bind (.canRecover words) ?_
    have items := Ensures.oneOrMore_kept .comma (SelectItem.words false) words
      (F := fun behind => firstKind behind ∈ afterItem?)
      (S := fun words item _ => SameStart words (item.words false)) nofun rfl
      (fun _ => show TokenKind.comma ∈ afterItem? by decide) (keeps.moves .selectItem)
      fun words => (keeps.preserves .selectItem words trivial).mono fun _ _ ⟨kept, start, _⟩ => ⟨kept, start⟩
    refine items.mono fun items rest ⟨first, others, _, split, start, _, kept⟩ => ?_
    have start' : SameStart words (separated .comma (items.map (SelectItem.words false))) := by
      rw [split]
      exact start.separated
    refine ⟨?_, fun behind h => ?_⟩
    · refine .eat_missed (Kept.follow (kept.of_reads fun behind _ hread => ?_) ?_) ?_
      · exact (Reads.canRecover _).bind hread
      · intro behind h
        rw [h]
        exact ⟨by decide, nofun⟩
      · exact fun _ _ => start'.firstKind_ne _ (by decide)
    · have other : ∀ kind ∈ [TokenKind.keyword .DISTINCT, .keyword .ALL, .keyword .TOP],
          firstKind (separated .comma (items.map (SelectItem.words false)) ++ behind) ≠ kind := by
        intro kind hkind
        refine start'.firstKind_ne behind ?_
        revert kind
        decide
      exact other _ h rfl

end

end Adql
