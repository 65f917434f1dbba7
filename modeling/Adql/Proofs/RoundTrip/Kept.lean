import Adql.Proofs.RoundTrip.Added
import Adql.Proofs.RoundTrip.Nearby

/-!
# Parts that are kept

`Kept parser bare follow words value rest` says of a part of a source, read from the words down to
the rest as the value, that the bare words are another way to write it: in front of anything that
may follow, the parser reads the same value from them.  They are words that can be written, and
have as many opening parentheses as the part has in the source.

The lemmas put parts together: sequences, alternatives, and, for repetitions, `Ensures.iterate_kept`
and `Ensures.oneOrMore_kept`.
-/

namespace Adql

open Adql.Parser Adql.Grammar

variable {α β σ : Type}

/-- The bare words are a way to write what the parser read as the value. -/
structure Kept (parser : Parser α) (bare : List Word) (follow : List Word → Prop)
    (words : List Word) (value : α) (rest : List Word) : Prop where
  /-- The words can be written. -/
  spelled : ∀ word ∈ bare, word.Spelled
  /-- No opening parenthesis is lost or added. -/
  openings_eq : openings words = openings bare + openings rest
  /-- The value is read again. -/
  reads : ∀ behind, follow behind → Reads parser (bare ++ behind) value behind

/-- The word of a mark or of a reserved word can be written. -/
theorem Keyword.spelled_word (keyword : Keyword) : keyword.word.Spelled := rfl

namespace Kept

variable {p q : Parser α} {f : α → Parser β} {bare bare' words middle rest : List Word} {a : α}
  {b : β} {F G : List Word → Prop} {kind : TokenKind} {keyword : Keyword} {word : Word}

/-! ### Changes -/

/-- Less may follow. -/
theorem follow (h : Kept p bare F words a rest) (hG : ∀ behind, G behind → F behind) :
    Kept p bare G words a rest :=
  { h with reads := fun behind hbehind => h.reads behind (hG behind hbehind) }

/-- Another parser may read the same. -/
theorem of_reads (h : Kept p bare F words a rest) {q : Parser β}
    (hq : ∀ behind, F behind → Reads p (bare ++ behind) a behind →
      Reads q (bare ++ behind) b behind) : Kept q bare F words b rest :=
  { h with reads := fun behind hbehind => hq behind hbehind (h.reads behind hbehind) }

/-- A word of the source may be left out if it is no opening parenthesis. -/
theorem skip (h : Kept p bare F words a rest) (hkind : word.kind ≠ .leftParen) :
    Kept p bare F (word :: words) a rest :=
  { h with openings_eq := by simp [hkind, h.openings_eq] }

/-- A word may be put in if it is no opening parenthesis. -/
theorem insert (h : Kept p bare F words a rest) {q : Parser β}
    (hkind : word.kind ≠ .leftParen) (spelled : word.Spelled)
    (hq : ∀ behind, F behind → Reads p (bare ++ behind) a behind →
      Reads q (word :: (bare ++ behind)) b behind) : Kept q (word :: bare) F words b rest where
  spelled other hother := by
    rcases List.mem_cons.mp hother with rfl | hother
    · exact spelled
    · exact h.spelled other hother
  openings_eq := by simp [hkind, h.openings_eq]
  reads behind hbehind := hq behind hbehind (h.reads behind hbehind)

/-- A word is written as a word of the same kind. -/
theorem cons (h : Kept p bare F words a rest) {q : Parser β} {word' : Word}
    (hkind : word'.kind = word.kind) (spelled : word.Spelled)
    (hq : ∀ behind, F behind → Reads p (bare ++ behind) a behind →
      Reads q (word :: (bare ++ behind)) b behind) :
    Kept q (word :: bare) F (word' :: words) b rest where
  spelled other hother := by
    rcases List.mem_cons.mp hother with rfl | hother
    · exact spelled
    · exact h.spelled other hother
  openings_eq := by
    simp only [openings_cons, h.openings_eq, hkind]
    omega
  reads behind hbehind := hq behind hbehind (h.reads behind hbehind)

/-! ### Sequences -/

/-- Nothing is written for a value that is yielded at once. -/
theorem pure (a : α) (words : List Word) : Kept (pure a) [] F words a words where
  spelled _ h := absurd h List.not_mem_nil
  openings_eq := by simp
  reads behind _ := .pure a behind

/-- Parts are kept one behind the other if the second one may follow the first one. -/
theorem bind (hp : Kept p bare F words a middle) (hf : Kept (f a) bare' G middle b rest)
    (next : ∀ behind, G behind → F (bare' ++ behind)) :
    Kept (p >>= f) (bare ++ bare') G words b rest where
  spelled word hword := by
    rcases List.mem_append.mp hword with hword | hword
    · exact hp.spelled word hword
    · exact hf.spelled word hword
  openings_eq := by
    rw [hp.openings_eq, hf.openings_eq, openings_append]
    omega
  reads behind hbehind := by
    rw [List.append_assoc]
    exact (hp.reads _ (next behind hbehind)).bind (hf.reads behind hbehind)

/-- The value of a part may be mapped. -/
theorem map (g : α → β) (h : Kept p bare F words a rest) :
    Kept (g <$> p) bare F words (g a) rest :=
  h.of_reads fun _ _ hread => hread.map g

/-- A part with a value made of the value of another part. -/
theorem bind_pure {g : α → β} (h : Kept p bare F words a rest) :
    Kept (p >>= fun a => Pure.pure (g a)) bare F words (g a) rest :=
  h.of_reads fun _ _ hread => hread.bind (.pure _ _)

/-- A look ahead with a known answer changes nothing. -/
theorem peek {p : Parser α} {f : α → Parser β} (a : α) (hf : Kept (f a) bare F words b rest)
    (hp : ∀ behind, F behind → Reads p (bare ++ behind) a (bare ++ behind)) :
    Kept (p >>= f) bare F words b rest :=
  hf.of_reads fun behind hbehind hread => (hp behind hbehind).bind hread

/-! ### Tokens -/

/-- A word that has to be there is written. -/
theorem expect {q : Parser β} (hq : Kept q bare F words b rest) (hkind : word.kind = kind)
    (spelled : kind.word.Spelled) :
    Kept (Parser.expect kind >>= fun _ => q) (kind.word :: bare) F (word :: words) b rest :=
  hq.cons hkind spelled fun _ _ hread => .expect_bind rfl hread

/-- A reserved word that has to be there is written. -/
theorem expectWord {q : Parser β} (hq : Kept q bare F words b rest)
    (hkind : word.kind = .keyword keyword) :
    Kept (Parser.expectWord keyword >>= fun _ => q) (keyword.word :: bare) F (word :: words) b
      rest :=
  hq.cons hkind keyword.spelled_word fun _ _ hread => (Reads.expectWord keyword _).bind hread

/-- A word that was eaten is written. -/
theorem eat {f : Bool → Parser α} (hf : Kept (f true) bare F words a rest)
    (hkind : word.kind = kind) (spelled : kind.word.Spelled) :
    Kept (Parser.eat kind >>= f) (kind.word :: bare) F (word :: words) a rest :=
  hf.cons hkind spelled fun _ _ hread => (Reads.eat_true rfl).bind hread

/-- A reserved word that was eaten is written. -/
theorem eatWord {f : Bool → Parser α} (hf : Kept (f true) bare F words a rest)
    (hkind : word.kind = .keyword keyword) :
    Kept (Parser.eatWord keyword >>= f) (keyword.word :: bare) F (word :: words) a rest :=
  hf.eat hkind keyword.spelled_word

/-- A word that was not eaten is not written. -/
theorem eat_missed {f : Bool → Parser α} (hf : Kept (f false) bare F words a rest)
    (missing : ∀ behind, F behind → firstKind (bare ++ behind) ≠ kind) :
    Kept (Parser.eat kind >>= f) bare F words a rest :=
  hf.of_reads fun behind hbehind hread => (Reads.eat_false (missing behind hbehind)).bind hread

/-- A reserved word that was not eaten is not written. -/
theorem eatWord_missed {f : Bool → Parser α} (hf : Kept (f false) bare F words a rest)
    (missing : ∀ behind, F behind → firstKind (bare ++ behind) ≠ .keyword keyword) :
    Kept (Parser.eatWord keyword >>= f) bare F words a rest :=
  hf.eat_missed missing

/-- A kind that was found is found again. -/
theorem check {f : Bool → Parser α} (hf : Kept (f true) bare F words a rest)
    (there : ∀ behind, F behind → firstKind (bare ++ behind) = kind) :
    Kept (Parser.check kind >>= f) bare F words a rest :=
  hf.of_reads fun behind hbehind hread => (Reads.check_true (there behind hbehind)).bind hread

/-- A kind that was not found is not found again. -/
theorem check_missed {f : Bool → Parser α} (hf : Kept (f false) bare F words a rest)
    (missing : ∀ behind, F behind → firstKind (bare ++ behind) ≠ kind) :
    Kept (Parser.check kind >>= f) bare F words a rest :=
  hf.of_reads fun behind hbehind hread => (Reads.check_false (missing behind hbehind)).bind hread

/-- What stands behind a word is written behind the word. -/
theorem afterWord {default : α} (h : Kept p bare F words a rest)
    (hkind : word.kind = .keyword keyword) :
    Kept (Parser.afterWord keyword default p) (keyword.word :: bare) F (word :: words) a rest :=
  h.cons hkind keyword.spelled_word fun _ _ hread => .afterWord_some default hread

/-- Without the word, nothing is written. -/
theorem afterWord_missed {default : α}
    (missing : ∀ behind, F behind → firstKind behind ≠ .keyword keyword) :
    Kept (Parser.afterWord keyword default p) [] F words default words where
  spelled _ h := absurd h List.not_mem_nil
  openings_eq := by simp
  reads behind hbehind := .afterWord_none (missing behind hbehind)

/-! ### Alternatives and rules -/

/-- The first alternative is taken again. -/
theorem firstOf_left (h : Kept p bare F words a rest) :
    Kept (firstOf p q) bare F words a rest :=
  h.of_reads fun _ _ hread => .firstOf_left hread

/-- The second alternative is taken again if the first one fails again. -/
theorem firstOf_right (h : Kept q bare F words a rest)
    (fails : ∀ behind, F behind → Fails p (bare ++ behind)) :
    Kept (firstOf p q) bare F words a rest :=
  h.of_reads fun behind hbehind hread => .firstOf_right (fails behind hbehind) hread

/-- An optional part that is there is written. -/
theorem optional_some (h : Kept p bare F words a rest) :
    Kept (optional p) bare F words (some a) rest :=
  h.of_reads fun _ _ hread => .optional_some hread

/-- An optional part that is not there is not written. -/
theorem optional_none (fails : ∀ behind, F behind → Fails p behind) :
    Kept (optional p) [] F words none words where
  spelled _ h := absurd h List.not_mem_nil
  openings_eq := by simp
  reads behind hbehind := .optional_none (fails behind hbehind)

/-- A part that needs no recovery is kept. -/
theorem orRecover {sync : List TokenKind} {ifFailed : α} (h : Kept p bare F words a rest) :
    Kept (orRecover p sync ifFailed) bare F words a rest :=
  h.of_reads fun _ _ hread => .orRecover sync ifFailed hread

/-- What the body of a rule keeps is kept by the rule. -/
theorem apply {rule : Rule} {allowance : Nat} {value : rule.Result}
    (h : Kept (body true (apply true allowance) rule) bare F words value rest) :
    Kept (Grammar.apply true (allowance + 1) rule) bare F words value rest :=
  h.of_reads fun _ _ hread => .apply hread

end Kept

/-! ### Repetition -/

/-- A repetition keeps what its steps keep.  In front of a step, the words of the source and the
written words are related; the steps are written one behind the other. -/
theorem Ensures.iterate_kept (step : σ → Parser (Step σ)) (start : σ) (words : List Word)
    {P Q : σ → List Word → Prop} {H D : List Word → List Word → Prop} (hstart : P start [])
    (h : ∀ state emitted words, P state emitted → Ensures (step state) words (AfterStep
      (fun next rest => ∃ bare, bare ≠ [] ∧ rest.length < words.length ∧
        P next (emitted ++ bare) ∧ Kept (step state) bare (H rest) words (.more next) rest ∧
        ∀ behind, H rest behind → H words (bare ++ behind))
      (fun final rest => ∃ bare, Q final (emitted ++ bare) ∧
        Kept (step state) bare (D rest) words (.done final) rest ∧
        ∀ behind, D rest behind → H words (bare ++ behind)))) :
    Ensures (Parser.iterate step start) words fun final rest => ∃ bare, Q final bare ∧
      Kept (Parser.iterate step start) bare (D rest) words final rest ∧
      ∀ behind, D rest behind → H words (bare ++ behind) := by
  -- what has been written so far leads from the start to the state
  let I (state : σ) (ahead : List Word) : Prop := ∃ emitted, P state emitted ∧
    (∀ word ∈ emitted, word.Spelled) ∧ openings words = openings emitted + openings ahead ∧
    ∀ behind, H ahead behind → Repeats .adql step start (emitted ++ behind) state behind ∧
      H words (emitted ++ behind)
  have invariant : I start words :=
    ⟨[], hstart, fun _ h => absurd h List.not_mem_nil, by simp,
      fun behind hbehind => ⟨.refl start behind, hbehind⟩⟩
  refine Ensures.iterate (I := I) invariant fun state ahead hstate => ?_
  obtain ⟨emitted, hP, spelled, count, repeats⟩ := hstate
  refine (h state emitted ahead hP).mono fun next rest hnext => ?_
  cases next with
  | more next =>
    obtain ⟨bare, nonempty, shorter, hP, kept, links⟩ := hnext
    refine ⟨⟨emitted ++ bare, hP, fun word hword => ?_, ?_, fun behind hbehind => ?_⟩, shorter⟩
    · exact (List.mem_append.mp hword).elim (spelled word) (kept.spelled word)
    · rw [count, kept.openings_eq, openings_append]
      omega
    · obtain ⟨before, hwords⟩ := repeats (bare ++ behind) (links behind hbehind)
      rw [List.append_assoc]
      refine ⟨before.trans (.cons (kept.reads behind hbehind) ?_ (.refl next behind)), hwords⟩
      have := List.length_pos_iff.mpr nonempty
      rw [List.length_append]
      omega
  | done final =>
    obtain ⟨bare, hQ, kept, links⟩ := hnext
    refine ⟨emitted ++ bare, hQ, ⟨fun word hword => ?_, ?_, fun behind hbehind => ?_⟩,
      fun behind hbehind => ?_⟩
    · exact (List.mem_append.mp hword).elim (spelled word) (kept.spelled word)
    · rw [count, kept.openings_eq, openings_append]
      omega
    · rw [List.append_assoc]
      exact (repeats (bare ++ behind) (links behind hbehind)).1.iterate (kept.reads behind hbehind)
    · rw [List.append_assoc]
      exact (repeats (bare ++ behind) (links behind hbehind)).2

/-- Rows of words with separators: the first row, then each other row behind a separator. -/
theorem separated_cons (separator : TokenKind) (first : List Word) (others : List (List Word)) :
    separated separator (first :: others) =
      first ++ others.flatMap fun row => separator.word :: row := by
  induction others generalizing first with
  | nil => simp [separated]
  | cons second others ih => rw [separated, ih, List.flatMap_cons, List.cons_append]

/-- There are other items behind the first one exactly if there is a separator. -/
theorem Ensures.listStep_first {item : Parser α} {separator : TokenKind} (first : α)
    (words : List Word) (hkind : separator ≠ .eof) (moves : moving.rel Eq item item)
    (hitem : ∀ words, Ensures item words fun _ _ => True) :
    Ensures (Parser.iterate (listStep separator item) #[first]) words fun items _ =>
      items.toList = [first] ↔ firstKind words ≠ separator := by
  refine Ensures.iterate (I := fun items ahead =>
    (items = #[first] ∧ ahead = words) ∨ (1 < items.size ∧ firstKind words = separator))
    (.inl ⟨rfl, rfl⟩) fun items ahead hitems => ?_
  refine .eat_bind hkind (fun word rest split same => ?_) fun missed => .pure ?_
  · refine ((hitem rest).length_le moves).bind fun a rest' ⟨_, shorter⟩ => .pure ⟨.inr ?_, ?_⟩
    · rcases hitems with ⟨rfl, rfl⟩ | ⟨more, found⟩
      · exact ⟨by simp, by rw [split]; exact same⟩
      · exact ⟨by rw [Array.size_push]; omega, found⟩
    · rw [split, List.length_cons]
      omega
  · rcases hitems with ⟨rfl, rfl⟩ | ⟨more, found⟩
    · exact ⟨fun _ => missed, fun _ => rfl⟩
    · refine ⟨fun alone => ?_, fun h => absurd found h⟩
      have := congrArg List.length alone
      rw [Array.length_toList, List.length_singleton] at this
      omega

/-- One or more items are kept if each item is; a separator may follow an item. -/
theorem Ensures.oneOrMore_kept {item : Parser α} (separator : TokenKind) (bare : α → List Word)
    {F : List Word → Prop} {S : List Word → α → List Word → Prop} (words : List Word)
    (hkind : separator ≠ .eof) (spelled : separator.word.Spelled)
    (next : ∀ behind, F (separator.word :: behind)) (moves : moving.rel Eq item item)
    (hitem : ∀ words, Ensures item words fun a rest =>
      Kept item (bare a) F words a rest ∧ S words a rest) :
    Ensures (Parser.oneOrMore separator item) words fun items rest =>
      ∃ first others middle, items = first :: others ∧ S words first middle ∧
        (others = [] ↔ firstKind middle ≠ separator) ∧
        Kept (Parser.oneOrMore separator item) (separated separator (items.map bare))
          (fun behind => F behind ∧ firstKind behind ≠ separator) words items rest := by
  refine (hitem words).bind fun first middle ⟨keptFirst, starts⟩ => ?_
  -- the items behind the first one are written behind separators
  let Written (items : Array α) (emitted : List Word) : Prop := ∃ others,
    items.toList = first :: others ∧ emitted = others.flatMap fun a => separator.word :: bare a
  let Follow (behind : List Word) : Prop := F behind ∧ firstKind behind ≠ separator
  have loop : Ensures (Parser.iterate (listStep separator item) #[first]) middle
      fun items rest => ∃ bare', Written items bare' ∧
        Kept (Parser.iterate (listStep separator item) #[first]) bare' Follow middle items rest ∧
        ∀ behind, Follow behind → F (bare' ++ behind) := by
    refine Ensures.iterate_kept _ _ _ (P := Written) (Q := Written) (H := fun _ => F)
      (D := fun _ => Follow) ⟨[], rfl, rfl⟩ ?_
    rintro items _ words ⟨others, hitems, rfl⟩
    refine .eat_bind hkind (fun word rest split same => ?_) fun missed => ?_
    · subst split
      refine ((hitem rest).length_le moves).bind fun a rest' ⟨⟨kept, _⟩, shorter⟩ => .pure ?_
      refine ⟨separator.word :: bare a, List.cons_ne_nil _ _, Nat.lt_succ_of_le shorter,
        ⟨others ++ [a], by simp [hitems], by simp⟩, ?_, fun behind _ => next _⟩
      exact .eat (Kept.bind_pure kept) same spelled
    · refine .pure ⟨[], ⟨others, hitems, by simp⟩, ?_, fun behind hbehind => hbehind.1⟩
      exact .eat_missed (.pure _ _) fun behind hbehind => hbehind.2
  have alone := Ensures.listStep_first first middle hkind moves
    fun words => (hitem words).mono fun _ _ _ => trivial
  refine (loop.and alone).bind fun items rest ⟨⟨_, ⟨others, hitems, hbare⟩, kept, links⟩, one⟩ =>
    .pure ?_
  subst hbare
  refine ⟨first, others, middle, hitems, starts, ?_, ?_⟩
  · rw [← one, hitems, List.cons_eq_cons, and_iff_right rfl]
  · have whole := keptFirst.bind (f := fun first =>
      Parser.iterate (listStep separator item) #[first] >>= fun items => Pure.pure items.toList)
      kept.bind_pure links
    rw [hitems] at whole ⊢
    rw [List.map_cons, separated_cons, List.flatMap_map]
    exact whole

end Adql
