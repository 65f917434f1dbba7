import Adql.Proofs.Expressions.Runs
import Adql.Proofs.Expressions.Restoring
import Mathlib.Algebra.Order.BigOperators.Group.List
import Mathlib.Algebra.Order.Group.Nat
import Mathlib.Tactic.Choose

/-!
# Words that are accepted

`Accepts parser words follow` says that the words can be written and that a parser, given parsers for
rules that may nest deep enough, reads them in front of anything that may follow.  What it reads does
not depend on what follows; it is not said what it is.  There is one lemma for each way to combine
parsers.
-/

namespace Adql

open Adql.Parser Adql.Grammar

variable {α β : Type}

/-- The words can be written and are read, whatever follows them, if rules may nest deep enough. -/
structure Accepts (parser : Nat → Parser α) (words : List Word) (follow : List Word → Prop) :
    Prop where
  /-- The words can be written. -/
  spelled : ∀ word ∈ words, word.Spelled
  /-- One and the same value is read in front of all that may follow. -/
  reads : ∃ value depth, ∀ allowance, depth ≤ allowance → ∀ behind, follow behind →
    Reads (parser allowance) (words ++ behind) value behind

namespace Accepts

variable {p q : Nat → Parser α} {f : Nat → α → Parser β} {words words' : List Word}
  {F G : List Word → Prop} {kind : TokenKind} {keyword : Keyword} {word : Word}

/-! ### Changes -/

/-- What is read at any depth is accepted. -/
theorem of_reads (spelled : ∀ word ∈ words, word.Spelled) (value : α) (depth : Nat)
    (reads : ∀ allowance behind, F behind →
      Reads (p (allowance + depth)) (words ++ behind) value behind) : Accepts p words F := by
  refine ⟨spelled, value, depth, fun allowance enough behind hbehind => ?_⟩
  obtain ⟨less, rfl⟩ : ∃ less, allowance = less + depth := ⟨allowance - depth, by omega⟩
  exact reads less behind hbehind

/-- Less may follow. -/
theorem follow (h : Accepts p words F) (hG : ∀ behind, G behind → F behind) :
    Accepts p words G := by
  obtain ⟨value, depth, reads⟩ := h.reads
  exact ⟨h.spelled, value, depth, fun allowance enough behind hbehind =>
    reads allowance enough behind (hG behind hbehind)⟩

/-- Another parser may read the same words. -/
theorem change (h : Accepts p words F) {q : Nat → Parser β} (g : α → β)
    (hq : ∀ allowance value behind, F behind →
      Reads (p allowance) (words ++ behind) value behind →
      Reads (q allowance) (words ++ behind) (g value) behind) : Accepts q words F := by
  obtain ⟨value, depth, reads⟩ := h.reads
  exact ⟨h.spelled, g value, depth, fun allowance enough behind hbehind =>
    hq allowance value behind hbehind (reads allowance enough behind hbehind)⟩

/-- A parser may read another word first. -/
theorem cons (h : Accepts p words F) {q : Nat → Parser β} (g : α → β) (spelled : word.Spelled)
    (hq : ∀ allowance value behind, F behind →
      Reads (p allowance) (words ++ behind) value behind →
      Reads (q allowance) (word :: (words ++ behind)) (g value) behind) :
    Accepts q (word :: words) F := by
  obtain ⟨value, depth, reads⟩ := h.reads
  refine ⟨List.forall_mem_cons.mpr ⟨spelled, h.spelled⟩, g value, depth, ?_⟩
  intro allowance enough behind hbehind
  exact hq allowance value behind hbehind (reads allowance enough behind hbehind)

/-! ### Sequences -/

/-- A value is yielded at once. -/
theorem pure (value : α) : Accepts (fun _ => pure value) [] F :=
  .of_reads (List.forall_mem_nil _) value 0 fun _ behind _ => .pure value behind

/-- Words are accepted one behind the other if the second ones may follow the first ones. -/
theorem bind (hp : Accepts p words F) (hf : ∀ value, Accepts (f · value) words' G)
    (next : ∀ behind, G behind → F (words' ++ behind)) :
    Accepts (fun allowance => p allowance >>= f allowance) (words ++ words') G := by
  obtain ⟨value, depth, reads⟩ := hp.reads
  obtain ⟨value', depth', reads'⟩ := (hf value).reads
  refine ⟨List.forall_mem_append.mpr ⟨hp.spelled, (hf value).spelled⟩, value', max depth depth', ?_⟩
  intro allowance enough behind hbehind
  rw [List.append_assoc]
  exact (reads allowance (by omega) _ (next behind hbehind)).bind
    (reads' allowance (by omega) behind hbehind)

/-- The value may be changed. -/
theorem bind_pure {g : α → β} (h : Accepts p words F) :
    Accepts (fun allowance => p allowance >>= fun value => Pure.pure (g value)) words F :=
  h.change g fun _ _ _ _ reads => reads.bind (.pure _ _)

/-- The value may be mapped. -/
theorem map (g : α → β) (h : Accepts p words F) :
    Accepts (fun allowance => g <$> p allowance) words F :=
  h.change g fun _ _ _ _ reads => reads.map g

/-! ### Tokens -/

/-- A word that has to be there is accepted. -/
theorem expect (h : Accepts p words F) (spelled : kind.word.Spelled) :
    Accepts (fun allowance => Parser.expect kind >>= fun _ => p allowance) (kind.word :: words) F :=
  h.cons id spelled fun _ _ _ _ reads => .expect_bind rfl reads

/-- A reserved word that has to be there is accepted. -/
theorem expectWord (h : Accepts p words F) :
    Accepts (fun allowance => Parser.expectWord keyword >>= fun _ => p allowance)
      (keyword.word :: words) F :=
  h.cons id keyword.spelled_word fun _ _ _ _ reads => (Reads.expectWord keyword _).bind reads

/-- A word that may be eaten is accepted. -/
theorem eat {f : Nat → Bool → Parser α} (h : Accepts (f · true) words F)
    (spelled : kind.word.Spelled) :
    Accepts (fun allowance => Parser.eat kind >>= f allowance) (kind.word :: words) F :=
  h.cons id spelled fun _ _ _ _ reads => (Reads.eat_true rfl).bind reads

/-- A reserved word that may be eaten is accepted. -/
theorem eatWord {f : Nat → Bool → Parser α} (h : Accepts (f · true) words F) :
    Accepts (fun allowance => Parser.eatWord keyword >>= f allowance) (keyword.word :: words) F :=
  h.eat keyword.spelled_word

/-- A word that may be eaten may be missing. -/
theorem eat_missed {f : Nat → Bool → Parser α} (h : Accepts (f · false) words F)
    (missing : ∀ behind, F behind → firstKind (words ++ behind) ≠ kind) :
    Accepts (fun allowance => Parser.eat kind >>= f allowance) words F :=
  h.change id fun _ _ behind hbehind reads => (Reads.eat_false (missing behind hbehind)).bind reads

/-- A kind that is looked for may be there. -/
theorem check {f : Nat → Bool → Parser α} (h : Accepts (f · true) words F)
    (there : ∀ behind, F behind → firstKind (words ++ behind) = kind) :
    Accepts (fun allowance => Parser.check kind >>= f allowance) words F :=
  h.change id fun _ _ behind hbehind reads => (Reads.check_true (there behind hbehind)).bind reads

/-- A kind that is looked for may be missing. -/
theorem check_missed {f : Nat → Bool → Parser α} (h : Accepts (f · false) words F)
    (missing : ∀ behind, F behind → firstKind (words ++ behind) ≠ kind) :
    Accepts (fun allowance => Parser.check kind >>= f allowance) words F :=
  h.change id fun _ _ behind hbehind reads => (Reads.check_false (missing behind hbehind)).bind reads

/-- Words behind a reserved word that may be missing are accepted. -/
theorem afterWord {default : α} (h : Accepts p words F) :
    Accepts (fun allowance => Parser.afterWord keyword default (p allowance))
      (keyword.word :: words) F :=
  h.cons id keyword.spelled_word fun _ _ _ _ reads => .afterWord_some default reads

/-- Without the reserved word, no words are needed. -/
theorem afterWord_missed {default : α}
    (missing : ∀ behind, F behind → firstKind behind ≠ .keyword keyword) :
    Accepts (fun allowance => Parser.afterWord keyword default (p allowance)) [] F :=
  .of_reads (List.forall_mem_nil _) default 0 fun _ behind hbehind =>
    .afterWord_none (missing behind hbehind)

/-- A word for a name is accepted. -/
theorem identifier {name : Identifier} (valid : name.Valid) :
    Accepts (fun _ => Grammar.identifier) [name.word] F :=
  .of_reads (List.forall_mem_singleton.mpr valid.spelled) name 0 fun _ behind _ =>
    reads_identifier valid.identifier? behind

/-! ### Alternatives and rules -/

/-- The words of the second alternative are accepted if the first one fails. -/
theorem firstOf_right (h : Accepts q words F)
    (fails : ∃ depth, ∀ allowance, depth ≤ allowance → ∀ behind, F behind →
      Fails (p allowance) (words ++ behind)) :
    Accepts (fun allowance => firstOf (p allowance) (q allowance)) words F := by
  obtain ⟨value, depth, reads⟩ := h.reads
  obtain ⟨depth', fails⟩ := fails
  refine ⟨h.spelled, value, max depth depth', fun allowance enough behind hbehind => ?_⟩
  exact .firstOf_right (fails allowance (by omega) behind hbehind)
    (reads allowance (by omega) behind hbehind)

/-- The words of the first alternative are accepted. -/
theorem firstOf_left (h : Accepts p words F) :
    Accepts (fun allowance => firstOf (p allowance) (q allowance)) words F :=
  h.change id fun _ _ _ _ reads => .firstOf_left reads

/-- Where nothing has to be survived, words are accepted as well. -/
theorem orRecover {sync : List TokenKind} {ifFailed : α} (h : Accepts p words F) :
    Accepts (fun allowance => Parser.orRecover (p allowance) sync ifFailed) words F :=
  h.change id fun _ _ _ _ reads => .orRecover sync ifFailed reads

/-- What the body of a rule accepts is accepted by the rule. -/
theorem apply {rule : Rule} (h : Accepts (fun allowance => body true (apply true allowance) rule)
    words F) : Accepts (Grammar.apply true · rule) words F := by
  obtain ⟨value, depth, reads⟩ := h.reads
  refine ⟨h.spelled, value, depth + 1, fun allowance enough behind hbehind => ?_⟩
  obtain ⟨less, rfl⟩ : ∃ less, allowance = less + 1 := ⟨allowance - 1, by omega⟩
  exact .apply (reads less (by omega) behind hbehind)

/-- Words in parentheses are accepted, whatever follows them. -/
theorem inParentheses (h : Accepts p words F)
    (ends : ∀ behind, F (TokenKind.rightParen.word :: behind)) :
    Accepts (fun allowance => Parser.inParentheses (p allowance)) (enclosed words) G :=
  .expect (h.bind (f := fun _ value => do
      let _ ← Parser.expect .rightParen
      Pure.pure value)
    (fun value => (Accepts.pure value).expect rfl) fun behind _ => ends behind) rfl

/-! ### Lists -/

/-- Items with separators between them are accepted if each of them is. -/
theorem oneOrMore {items : List β} {emit : β → List Word} (mark : kind.word.Spelled)
    (nonempty : items ≠ []) (accepts : ∀ item ∈ items, Accepts p (emit item) F)
    (next : ∀ behind, F (kind.word :: behind))
    (ends : ∀ behind, G behind → F behind ∧ firstKind behind ≠ kind) :
    Accepts (fun allowance => Parser.oneOrMore kind (p allowance))
      (separated kind (items.map emit)) G := by
  have : Nonempty α := by
    obtain ⟨item, hitem⟩ := List.exists_mem_of_ne_nil items nonempty
    exact ⟨(accepts item hitem).reads.choose⟩
  choose! value depth reads using fun item hitem => (accepts item hitem).reads
  refine ⟨spelled_separated mark fun item hitem => (accepts item hitem).spelled,
    items.map value, (items.map depth).sum, fun allowance enough behind hbehind => ?_⟩
  refine reads_oneOrMore next (ends behind hbehind).1 (ends behind hbehind).2 nonempty ?_
  intro item hitem words hwords
  have bound := List.le_sum_of_mem (List.mem_map_of_mem (f := depth) hitem)
  exact reads item hitem allowance (by omega) words hwords

end Accepts

end Adql
