import Adql.Proofs.Flat.Patterns
import Adql.Proofs.RoundTrip.Outcomes

/-!
# Reading texts of a pattern

`ReadsAll parser pattern follow` says that a parser reads every text of the pattern in front of one of
the kinds that may follow; what it yields is left open.  There is one lemma for each way to put patterns
together.  A repetition is read piece by piece (`exists_repeats`), and it may be left before its last
piece: a run of operators leaves what binds looser to the run around it, and a chain of intersections
leaves a union to the chain around it.
-/

namespace Adql

open Adql.Parser Adql.Grammar

namespace Flat

/-- Does the parser read every text of the pattern in front of one of the kinds? -/
def ReadsAll {α : Type} (parser : Parser α) (pattern : Pattern) (follow : List TokenKind) : Prop :=
  ∀ words behind, Matches pattern words → firstKind behind ∈ follow →
    ∃ value, Reads parser (words ++ behind) value behind

section

variable {α β σ : Type} {parser : Parser α} {pattern p q : Pattern} {F G : List TokenKind}
  {kind : TokenKind} {keyword : Keyword}

namespace ReadsAll

/-! ### Sequences and choices -/

/-- Fewer kinds may follow. -/
theorem mono (h : ReadsAll parser pattern F) (sub : ∀ kind ∈ G, kind ∈ F) :
    ReadsAll parser pattern G :=
  fun words behind text follows => h words behind text (sub _ follows)

/-- The value of a parser may be mapped. -/
theorem map (f : α → β) (h : ReadsAll parser pattern F) :
    ReadsAll (f <$> parser) pattern F := by
  intro words behind text follows
  obtain ⟨value, read⟩ := h words behind text follows
  exact ⟨f value, read.map f⟩

/-- A sequence reads what its parts read, if what the second part starts with may follow the first. -/
theorem bind {f : α → Parser β} (hp : ReadsAll parser p (ahead q F))
    (hf : ∀ a, ReadsAll (f a) q F) : ReadsAll (parser >>= f) (p * q) F := by
  intro words behind text follows
  obtain ⟨front, back, rfl, first, second⟩ := text.mul
  rw [List.append_assoc]
  obtain ⟨a, readFirst⟩ := hp front (back ++ behind) first (second.firstKind_mem follows)
  obtain ⟨b, readSecond⟩ := hf a back behind second follows
  exact ⟨b, readFirst.bind readSecond⟩

/-- What follows a parser without any more text is its rest. -/
theorem bind_pure {f : α → β} (h : ReadsAll parser pattern F) :
    ReadsAll (parser >>= fun a => pure (f a)) pattern F := by
  intro words behind text follows
  obtain ⟨value, read⟩ := h words behind text follows
  exact ⟨f value, read.bind (.pure _ _)⟩

/-- A sequence ends where nothing more is read. -/
theorem pure (a : α) : ReadsAll (pure a) 1 F := by
  intro words behind text _
  obtain rfl := text.one
  exact ⟨a, .pure a behind⟩

/-- A choice is read if both of its sides are. -/
theorem add (hp : ReadsAll parser p F) (hq : ReadsAll parser q F) :
    ReadsAll parser (p + q) F := by
  intro words behind text follows
  rcases text.add with first | second
  · exact hp words behind first follows
  · exact hq words behind second follows

/-! ### Words -/

/-- A word that has to be there is read with what stands behind it. -/
theorem expect_bind {next : Parser α} (h : ReadsAll next pattern F) :
    ReadsAll (expect kind >>= fun _ => next) (.char kind * pattern) F := by
  intro words behind text follows
  obtain ⟨word, rest, rfl, same, -, others⟩ := text.char_mul
  obtain ⟨value, read⟩ := h rest behind others follows
  exact ⟨value, .expect_bind same read⟩

/-- A reserved word that has to be there is read with what stands behind it. -/
theorem expectWord_bind {next : Parser α} (h : ReadsAll next pattern F) :
    ReadsAll (expectWord keyword >>= fun _ => next) (word keyword * pattern) F := by
  unfold Parser.expectWord
  rw [bind_assoc]
  exact h.expect_bind

/-- What is read does not start with some word. -/
theorem check_bind {next : Bool → Parser α} (h : ReadsAll (next false) pattern F)
    (other : kind ∉ ahead pattern F) : ReadsAll (check kind >>= next) pattern F := by
  intro words behind text follows
  have missing : firstKind (words ++ behind) ≠ kind := by
    intro same
    exact other (same ▸ text.firstKind_mem follows)
  obtain ⟨value, read⟩ := h words behind text follows
  exact ⟨value, (Reads.check_false missing).bind read⟩

/-- A word may be missing in front of what follows. -/
theorem eat_bind {next : Bool → Parser α} (h : ∀ found, ReadsAll (next found) pattern F)
    (other : kind ∉ ahead pattern F) :
    ReadsAll (eat kind >>= next) (perhaps (.char kind) * pattern) F := by
  intro words behind text follows
  obtain ⟨front, rest, rfl, first, others⟩ := text.mul
  rcases first.perhaps with rfl | present
  · have missing : firstKind (rest ++ behind) ≠ kind := by
      intro same
      exact other (same ▸ others.firstKind_mem follows)
    obtain ⟨value, read⟩ := h false rest behind others follows
    exact ⟨value, (Reads.eat_false missing).bind read⟩
  · obtain ⟨word, rfl, same, -⟩ := present.char
    obtain ⟨value, read⟩ := h true rest behind others follows
    exact ⟨value, (Reads.eat_true same).bind read⟩

/-- What stands behind a word is read, or both are missing. -/
theorem afterWord {default : α} (h : ReadsAll parser pattern F)
    (other : .keyword keyword ∉ F) :
    ReadsAll (afterWord keyword default parser) (clause keyword pattern) F := by
  intro words behind text follows
  rcases text.perhaps with rfl | present
  · refine ⟨default, .afterWord_none ?_⟩
    intro same
    exact other (same ▸ follows)
  · obtain ⟨word, rest, rfl, same, -, others⟩ := present.char_mul
    obtain ⟨value, read⟩ := h rest behind others follows
    exact ⟨value, (Reads.eat_true same).bind read⟩

/-- What is read does not start with the word of something that may be missing. -/
theorem afterWord_bind {default : β} {optional : Parser β} {next : β → Parser α}
    (h : ReadsAll (next default) pattern F) (other : .keyword keyword ∉ ahead pattern F) :
    ReadsAll (Parser.afterWord keyword default optional >>= next) pattern F := by
  intro words behind text follows
  have missing : firstKind (words ++ behind) ≠ .keyword keyword := by
    intro same
    exact other (same ▸ text.firstKind_mem follows)
  obtain ⟨value, read⟩ := h words behind text follows
  exact ⟨value, (Reads.afterWord_none missing).bind read⟩

/-- One of two words is read, or neither is there. -/
theorem eitherWord {first second : Keyword} (found missing : α) (differ : first ≠ second)
    (other : .keyword first ∉ F ∧ .keyword second ∉ F) :
    ReadsAll (eatWord first >>= fun there => if there then Pure.pure found else do
      let _ ← eatWord second
      Pure.pure missing) (perhaps (oneOf [.keyword first, .keyword second])) F := by
  intro words behind text follows
  rcases text.perhaps with rfl | present
  · have none {keyword : Keyword} (absent : .keyword keyword ∉ F) :
        firstKind ([] ++ behind) ≠ .keyword keyword := fun same => absent (same ▸ follows)
    exact ⟨missing, (Reads.eat_false (none other.1)).bind
      ((Reads.eat_false (none other.2)).bind (.pure _ _))⟩
  · obtain ⟨word, rfl, same, -⟩ := present.oneOf
    simp only [List.mem_cons, List.not_mem_nil, or_false] at same
    rcases same with same | same
    · exact ⟨found, (Reads.eat_true same).bind (.pure _ _)⟩
    · have otherwise : firstKind ([word] ++ behind) ≠ .keyword first := by
        intro kind
        exact differ (TokenKind.keyword.inj (kind.symm.trans same))
      exact ⟨missing, (Reads.eat_false otherwise).bind ((Reads.eat_true same).bind (.pure _ _))⟩

/-- What needs no recovery is read. -/
theorem orRecover {sync : List TokenKind} {ifFailed : α} (h : ReadsAll parser pattern F) :
    ReadsAll (orRecover parser sync ifFailed) pattern F := by
  intro words behind text follows
  obtain ⟨value, read⟩ := h words behind text follows
  exact ⟨value, read.orRecover sync ifFailed⟩

/-- A rule reads what its body reads. -/
theorem apply {rule : Rule} {allowance : Nat}
    (h : ReadsAll (Grammar.body true (apply true allowance) rule) pattern F) :
    ReadsAll (Grammar.apply true (allowance + 1) rule) pattern F := by
  intro words behind text follows
  obtain ⟨value, read⟩ := h words behind text follows
  exact ⟨value, .apply read⟩

/-- A rule reads what it reads wherever rules may nest deeper. -/
theorem of_le {rule : Rule} {allowance allowance' : Nat}
    (h : ReadsAll (Grammar.apply true allowance rule) pattern F)
    (more : allowance ≤ allowance') : ReadsAll (Grammar.apply true allowance' rule) pattern F := by
  intro words behind text follows
  obtain ⟨value, read⟩ := h words behind text follows
  exact ⟨value, read.of_le more⟩

end ReadsAll

/-! ### Repetitions -/

/-- What is left of some pieces is not longer than all of them. -/
theorem length_flatten_le {left pieces : List (List Word)} (h : left <:+ pieces) :
    left.flatten.length ≤ pieces.flatten.length := by
  obtain ⟨taken, rfl⟩ := h
  rw [List.flatten_append, List.length_append]
  exact Nat.le_add_left _ _

/-- A repetition takes pieces up to the first one that is loose, if each step reads a piece that is not,
and perhaps some of the pieces behind it. -/
theorem exists_repeats (step : σ → Parser (Step σ)) (loose : List Word → Prop)
    {pieces : List (List Word)} (behind : List Word) (nonempty : ∀ piece ∈ pieces, piece ≠ [])
    (more : ∀ state piece rest, piece :: rest <:+ pieces → ¬loose piece → ∃ next left,
      left <:+ rest ∧ Reads (step state) (piece ++ (rest.flatten ++ behind)) (.more next)
        (left.flatten ++ behind))
    (state : σ) : ∃ final left, left <:+ pieces ∧ (∀ piece ∈ left.head?, loose piece) ∧
      Repeats .adql step state (pieces.flatten ++ behind) final (left.flatten ++ behind) := by
  induction hlength : pieces.length using Nat.strongRecOn generalizing pieces state with
  | ind length ih =>
    subst hlength
    cases pieces with
    | nil => exact ⟨state, [], List.suffix_rfl, nofun, .refl _ _⟩
    | cons piece rest =>
      by_cases ends : loose piece
      · refine ⟨state, piece :: rest, List.suffix_rfl, fun first found => ?_, .refl _ _⟩
        obtain rfl := Option.some.inj found
        exact ends
      · obtain ⟨next, inner, taken, read⟩ := more state piece rest List.suffix_rfl ends
        have sub : inner <:+ piece :: rest := taken.trans (List.suffix_cons piece rest)
        have shorter : inner.length < (piece :: rest).length := Nat.lt_succ_of_le taken.length_le
        obtain ⟨final, left, suffix, stop, steps⟩ := ih inner.length shorter
          (fun other found => nonempty other (sub.subset found))
          (fun state other others behind => more state other others (behind.trans sub)) next rfl
        refine ⟨final, left, suffix.trans sub, stop, .cons ?_ ?_ steps⟩
        · rw [List.flatten_cons, List.append_assoc]
          exact read
        · have present := List.length_pos_iff.mpr (nonempty piece List.mem_cons_self)
          have rest := length_flatten_le taken
          simp only [List.flatten_cons, List.length_append]
          omega

/-- A repetition takes all pieces of a pattern and what ends them, if each step reads a piece, and the
last step reads the end. -/
theorem ReadsAll.iterateUntil {step : σ → Parser (Step σ)} {last : Pattern}
    (present : q.matchEpsilon = false)
    (more : ∀ state words behind, Matches q words → firstKind behind ∈ G →
      ∃ next, Reads (step state) (words ++ behind) (.more next) behind)
    (done : ∀ state words behind, Matches last words → firstKind behind ∈ F →
      ∃ final, Reads (step state) (words ++ behind) (.done final) behind)
    (link : ∀ kind ∈ heads q ++ ahead last F, kind ∈ G) (state : σ) :
    ReadsAll (iterate step state) (q.star * last) F := by
  intro words behind text follows
  obtain ⟨_, back, rfl, repeated, ending⟩ := text.mul
  obtain ⟨pieces, rfl, each⟩ := repeated.star
  -- behind a piece, there is another one, or what ends them
  have after {rest : List (List Word)} (each : ∀ piece ∈ rest, Matches q piece) :
      firstKind (rest.flatten ++ (back ++ behind)) ∈ G :=
    link _ ((Matches.flatten each).firstKind_mem (ending.firstKind_mem follows))
  obtain ⟨reached, left, suffix, stop, steps⟩ := exists_repeats step (fun _ => False)
    (back ++ behind) (fun piece found => (each piece found).ne_nil present)
    (fun state piece rest suffix _ => by
      have listed : ∀ other ∈ piece :: rest, Matches q other := fun other found =>
        each other (suffix.subset found)
      obtain ⟨first, others⟩ := List.forall_mem_cons.mp listed
      obtain ⟨next, read⟩ := more state piece (rest.flatten ++ (back ++ behind)) first (after others)
      exact ⟨next, rest, List.suffix_rfl, read⟩) state
  have none : left = [] := by
    cases left with
    | nil => rfl
    | cons piece left => exact (stop piece rfl).elim
  rw [none] at steps
  obtain ⟨final, finished⟩ := done reached back behind ending follows
  refine ⟨final, ?_⟩
  rw [List.append_assoc]
  exact steps.iterate finished

/-- A repetition takes all pieces of a pattern, if each step reads one of them, and it is done behind
the last one. -/
theorem ReadsAll.iterate {step : σ → Parser (Step σ)} (present : q.matchEpsilon = false)
    (more : ∀ state words behind, Matches q words → firstKind behind ∈ G →
      ∃ next, Reads (step state) (words ++ behind) (.more next) behind)
    (done : ∀ state behind, firstKind behind ∈ F →
      ∃ final, Reads (step state) behind (.done final) behind)
    (link : ∀ kind ∈ heads q ++ F, kind ∈ G) (state : σ) :
    ReadsAll (iterate step state) q.star F := by
  have finished (state : σ) (words behind : List Word) (text : Matches 1 words)
      (follows : firstKind behind ∈ F) :
      ∃ final, Reads (step state) (words ++ behind) (.done final) behind := by
    obtain rfl := text.one
    exact done state behind follows
  have until_end : ReadsAll (Parser.iterate step state) (q.star * 1) F :=
    .iterateUntil present more finished link state
  exact fun words behind text follows => until_end words behind text.mul_one follows

/-- Items with separators between them are read if each of them is. -/
theorem ReadsAll.oneOrMore {item : Parser α} {separator : TokenKind}
    (h : ReadsAll item p (separator :: F)) (other : separator ∉ F) :
    ReadsAll (oneOrMore separator item) (separatedBy separator p) F := by
  refine h.bind fun first => ReadsAll.bind_pure ?_
  refine .iterate (G := separator :: F) rfl (fun items words behind text follows => ?_)
    (fun items behind follows => ?_) (fun kind found => found) _
  · obtain ⟨word, rest, rfl, same, -, others⟩ := text.char_mul
    obtain ⟨value, read⟩ := h rest behind others follows
    exact ⟨items.push value, (Reads.eat_true same).bind (read.bind (.pure _ _))⟩
  · have missing : firstKind behind ≠ separator := fun same => other (same ▸ follows)
    exact ⟨items, (Reads.eat_false missing).bind (.pure _ _)⟩

end

end Flat

end Adql
