import Adql.Proofs.Composition.Statements
import Adql.Proofs.Readable.ParsedQueries
import Adql.Proofs.Reduction.Readability

/-!
# Parsing folded queries again

Folding works on all integers of sixty-four bits, but the lexer knows no number above the greatest
of them, and a sign is no part of a number.  So the least integer has no text that is read again: the
text of a tree with the least integer is not even cut into tokens (`tokenize_of_least`).

That is the only obstacle.  The tree of a source that is parsed without diagnostics is readable.  All
its leaves can be written, so the leaves of the folded tree can, but for the least integer, and a folded
tree whose leaves can be written is readable again (`folded_parses_iff`).
-/

namespace Adql

open Folding Adql.Decimal

/-! ### Words of ordinary leaves -/

/-- If the leaf can be written, the text of its magnitude is read again. -/
theorem Leaf.Writable.rereads {leaf : Leaf} (h : leaf.Writable) : leaf.unsigned.Rereads := by
  cases leaf with
  | real value => exact readReal?_text .query (value.isFinite_absolute.trans h)
  | _ => exact trivial

/-- The word of the least integer is an integer that is too large for a literal. -/
theorem Word.Holds.oversized {word : Word} {leaf : Leaf} (h : word.Holds leaf)
    (least : leaf = .least) : word.Oversized := by
  cases h with
  | integer value =>
    cases least
    exact ⟨rfl, _, by decide, rfl⟩
  | _ => cases least

/-- The word of an ordinary leaf can be printed. -/
theorem Word.Holds.written {word : Word} {leaf : Leaf} (h : word.Holds leaf)
    (ordinary : leaf.Ordinary) : word.Written :=
  ordinary.imp (fun writable => (h.stands writable writable.rereads).1.legible) h.oversized

namespace Spells

variable {words : List Word} {leaves : List Leaf}

/-- The words for ordinary leaves can be printed. -/
theorem written (h : Spells words leaves) (ordinary : ∀ leaf ∈ leaves, leaf.Ordinary) :
    ∀ word ∈ words, word.Written := by
  induction h with
  | nil => exact List.forall_mem_nil _
  | mark legible => exact List.forall_mem_singleton.mpr (.inl legible)
  | leaf holds =>
    exact List.forall_mem_singleton.mpr (holds.written (ordinary _ List.mem_cons_self))
  | append _ _ ih ih' =>
    obtain ⟨first, second⟩ := List.forall_mem_append.mp ordinary
    exact List.forall_mem_append.mpr ⟨ih first, ih' second⟩

/-- Among the words for leaves with the least integer, there is one that is too large for a literal. -/
theorem exists_oversized (h : Spells words leaves) (mem : Leaf.least ∈ leaves) :
    ∃ word ∈ words, word.Oversized := by
  induction h with
  | nil | mark => cases mem
  | leaf holds => exact ⟨_, List.mem_cons_self, holds.oversized (List.mem_singleton.mp mem).symm⟩
  | append _ _ ih ih' =>
    rcases List.mem_append.mp mem with mem | mem
    · obtain ⟨word, mem, oversized⟩ := ih mem
      exact ⟨word, List.mem_append_left _ mem, oversized⟩
    · obtain ⟨word, mem, oversized⟩ := ih' mem
      exact ⟨word, List.mem_append_right _ mem, oversized⟩

end Spells

/-! ### Folded queries -/

/-- The text of a query with the least integer is not cut into tokens, if all other leaves can be
written. -/
theorem tokenize_of_least {query : Query} (ordinary : ∀ leaf ∈ query.leaves, leaf.Ordinary)
    (least : Leaf.least ∈ query.leaves) : ∃ error, tokenize query.text = .error error :=
  query.prints.tokenize_oversized (query.spells.written ordinary) (query.spells.exists_oversized least)

/-- A text that is not cut into tokens is not parsed. -/
theorem ParsesTo.tokenizes {text : String} {tree : Query} (h : ParsesTo text tree) :
    ∃ tokens, tokenize text = .ok tokens := by
  obtain ⟨depth, deep⟩ := h.deep
  have parsed := deep { maxDepth := depth } rfl rfl rfl (Nat.le_refl depth)
  cases cut : tokenize text with
  | ok tokens => exact ⟨tokens, rfl⟩
  | error error =>
    simp only [parseText, parseText?, cut] at parsed
    cases parsed

/-- The text of the folded tree of a source that is parsed without diagnostics is parsed without
diagnostics, as far as the limits allow, exactly if folding has not made the least integer. -/
theorem folded_parses_iff {source : String} {tree : Query} {settings : Settings}
    (precedence : settings.precedence = .adql) (unbounded : settings.ruleBudget = none)
    (clean : parseText source settings = ⟨some tree, []⟩) :
    (∃ again, ParsesTo tree.folded.1.text again) ↔ Leaf.least ∉ tree.folded.1.leaves := by
  have readable := readable_of_clean precedence unbounded clean
  have ordinary : ∀ leaf ∈ tree.folded.1.leaves, leaf.Ordinary := by
    rw [Query.folded_fst]
    exact tree.leaves_reduced respects_ordinary fun leaf mem => .inl (readable.writable leaf mem)
  constructor
  · rintro ⟨again, parses⟩ least
    obtain ⟨tokens, cut⟩ := parses.tokenizes
    obtain ⟨error, uncut⟩ := tokenize_of_least ordinary least
    rw [cut] at uncut
    cases uncut
  · intro noLeast
    rw [Query.folded_fst] at ordinary noLeast ⊢
    refine (readable.reduced fun leaf mem => ?_).parses
    exact (ordinary leaf mem).resolve_right fun least => noLeast (least ▸ mem)

/-- A text with operations whose values are negative numbers and a string with a quote, in many places. -/
def negativeSource : String :=
  "SELECT (1 - 3) * a - -(0.5), 'it''s' || '--' FROM t WHERE NOT (3 - 5) IS NULL"

/-- The text of the folded tree. -/
def negativeText : String :=
  "SELECT -2 * a - -0.5, 'it''s--' FROM t WHERE NOT -2 IS NULL"

/-- Negative numbers are printed as texts that are read again, wherever they stand. -/
theorem folded_parses_negative : ∃ tree, parseText negativeSource {} = ⟨some tree, []⟩ ∧
    tree.folded.1.text = negativeText ∧ ∃ again, ParsesTo tree.folded.1.text again := by
  have errors : (parseText negativeSource {}).errors = [] := by decide +kernel
  have folds : (parseText negativeSource {}).tree.map (fun tree =>
      (tree.folded.1.text, decide (Leaf.least ∉ tree.folded.1.leaves))) =
      some (negativeText, true) := by decide +kernel
  obtain ⟨tree, found, folded⟩ := Option.map_eq_some_iff.mp folds
  obtain ⟨text, noLeast⟩ := Prod.mk.inj folded
  have clean : parseText negativeSource {} = ⟨some tree, []⟩ := by rw [← found, ← errors]
  exact ⟨tree, clean, text, (folded_parses_iff rfl rfl clean).mpr (of_decide_eq_true noLeast)⟩

/-- A text with an operation whose value is the least integer. -/
def leastSource : String :=
  "SELECT -9223372036854775807 - 1 FROM t"

/-- The least integer is folded, but its text is no number. -/
theorem least_is_no_number : ∃ tree, parseText leastSource {} = ⟨some tree, []⟩ ∧
    tree.folded.1.text = "SELECT -9223372036854775808 FROM t" ∧
    (parseText tree.folded.1.text {}).errors ≠ [] := by
  have errors : (parseText leastSource {}).errors = [] := by decide +kernel
  have folds : (parseText leastSource {}).tree.map (fun tree => tree.folded.1.text) =
      some "SELECT -9223372036854775808 FROM t" := by decide +kernel
  obtain ⟨tree, found, text⟩ := Option.map_eq_some_iff.mp folds
  refine ⟨tree, by rw [← found, ← errors], text, ?_⟩
  rw [text]
  decide +kernel

end Adql
