import Adql.Proofs.Composition.Notes
import Adql.Proofs.RoundTrip.Rules

/-!
# What carries over to longer texts

A parser that gets to the end of its words sees the end marker there.  If the words are put in
parentheses, it sees a closing parenthesis instead, and no rule tells the two apart, except one that
waits for the closing parenthesis itself.  A rule waits for it only inside a parenthesis that it has
opened, and there words whose parentheses are balanced do not end yet.  The same goes for a comma, as
far as rules wait for commas inside parentheses only.

`Carries` says this of a parser in front of given words: whatever it does there, it also does if
other words stand behind them, the first of which ends an argument, as long as the words close all
parentheses that are open; and it notes nothing about the other words but the first one of them.
`Carried` says so for all words.  There is one lemma for each primitive parser and for each way to
combine parsers.
-/

namespace Adql

open Adql.Parser Adql.Grammar

variable {α β σ : Type}

/-! ### Parentheses -/

/-- How many parentheses the words close besides those that they open. -/
def balance : List Word → Int
  | [] => 0
  | word :: rest =>
    (if word.kind = .rightParen then 1 else if word.kind = .leftParen then -1 else 0) + balance rest

/-- Is it the kind of a word that neither opens nor closes a parenthesis, nor ends an argument? -/
def TokenKind.IsPlain (kind : TokenKind) : Prop :=
  kind ≠ .leftParen ∧ kind ≠ .rightParen ∧ kind ≠ .comma ∧ kind ≠ .eof
  deriving Decidable

/-- A reserved word is no parenthesis and no comma. -/
theorem TokenKind.IsPlain.keyword (keyword : Keyword) : (TokenKind.keyword keyword).IsPlain :=
  ⟨nofun, nofun, nofun, nofun⟩

/-- The words start with one that ends an argument: a closing parenthesis or a comma. -/
def EndsArgument (words : List Word) : Prop :=
  firstKind words = .rightParen ∨ firstKind words = .comma

/-- What ends an argument is not plain. -/
theorem EndsArgument.ne {words : List Word} (closes : EndsArgument words) {kind : TokenKind}
    (hkind : kind.IsPlain) : kind ≠ firstKind words := by
  rcases closes with closes | closes
  · rw [closes]
    exact hkind.2.1
  · rw [closes]
    exact hkind.2.2.1

/-- What ends an argument opens no parenthesis. -/
theorem EndsArgument.ne_opening {words : List Word} (closes : EndsArgument words) :
    .leftParen ≠ firstKind words := by
  rcases closes with closes | closes
  · rw [closes]
    decide
  · rw [closes]
    decide

/-- What ends an argument is a word. -/
theorem EndsArgument.exists_cons {words : List Word} (closes : EndsArgument words) :
    ∃ word rest, words = word :: rest ∧ (word.kind = .rightParen ∨ word.kind = .comma) := by
  cases words with
  | nil => exact closes.elim nofun nofun
  | cons word rest => exact ⟨word, rest, rfl, closes⟩

/-- What makes no difference between the kinds that end an argument and the end marker, makes none in
front of the words. -/
theorem EndsArgument.same {words : List Word} (closes : EndsArgument words) {f : TokenKind → α}
    (paren : f .rightParen = f .eof) (comma : f .comma = f .eof) : f (firstKind words) = f .eof := by
  rcases closes with closes | closes
  · rw [closes, paren]
  · rw [closes, comma]

section

variable {word : Word} (rest : List Word)

/-- No words close nothing. -/
@[simp] theorem balance_nil : balance [] = 0 := rfl

/-- An opening parenthesis counts against the words. -/
theorem balance_opening (h : word.kind = .leftParen) :
    balance (word :: rest) = balance rest - 1 := by
  rw [balance, h, if_neg (by decide), if_pos rfl]
  omega

/-- A closing parenthesis counts for the words. -/
theorem balance_closing (h : word.kind = .rightParen) :
    balance (word :: rest) = balance rest + 1 := by
  rw [balance, h, if_pos rfl]
  omega

/-- Any other word does not count. -/
theorem balance_eq (h : word.kind ≠ .leftParen ∧ word.kind ≠ .rightParen) :
    balance (word :: rest) = balance rest := by
  rw [balance, if_neg h.2, if_neg h.1]
  omega

/-- A plain word does not count. -/
theorem balance_plain (h : word.kind.IsPlain) : balance (word :: rest) = balance rest :=
  balance_eq rest ⟨h.1, h.2.1⟩

end

/-- The closed parentheses of both parts count. -/
theorem balance_append (words behind : List Word) :
    balance (words ++ behind) = balance words + balance behind := by
  induction words with
  | nil => simp
  | cons word words ih =>
    rw [List.cons_append, balance, balance, ih]
    omega

/-- Words that close more parentheses than they open close some parenthesis first that they have not
opened. -/
theorem exists_closing {words : List Word} {opened : Nat} (close : opened < balance words) :
    ∃ front closing back, words = front ++ closing :: back ∧ closing.kind = .rightParen ∧
      balance front = opened := by
  induction words generalizing opened with
  | nil =>
    rw [balance_nil] at close
    omega
  | cons word rest ih =>
    -- the word is the one that is looked for, or it changes how many parentheses are open
    have further (inner : Nat) (more : inner < balance rest)
        (counts : ∀ front, balance (word :: front) = balance front + opened - inner) :
        ∃ front closing back, word :: rest = front ++ closing :: back ∧
          closing.kind = .rightParen ∧ balance front = opened := by
      obtain ⟨front, closing, back, rfl, hkind, same⟩ := ih more
      exact ⟨word :: front, closing, back, rfl, hkind, by rw [counts]; omega⟩
    by_cases opening : word.kind = .leftParen
    · rw [balance_opening rest opening] at close
      refine further (opened + 1) (by omega) fun front => ?_
      rw [balance_opening front opening]
      omega
    by_cases closing : word.kind = .rightParen
    · rw [balance_closing rest closing] at close
      cases opened with
      | zero => exact ⟨[], word, rest, rfl, closing, rfl⟩
      | succ opened =>
        refine further opened (by omega) fun front => ?_
        rw [balance_closing front closing]
        omega
    · rw [balance_eq rest ⟨opening, closing⟩] at close
      refine further opened close fun front => ?_
      rw [balance_eq front ⟨opening, closing⟩]
      omega

/-! ### Carrying over -/

/-- Whatever the first parser does in front of the words, the second one does if other words stand
behind them, as long as the words close all open parentheses.  A value, the number of parentheses that
are open then, and the words that are left meet the condition. -/
inductive Carries (behind : List Word) (opened : Int) (p p' : Parser α) (words : List Word)
    (condition : α → Int → List Word → Prop) : Prop
  | reads {a : α} {opened' : Int} {rest : List Word} (meets : condition a opened' rest)
      (balanced : balance rest + opened = balance words + opened') (reads : Reads p words a rest)
      (carries : opened ≤ balance words →
        ReadsWithin behind.length p' (words ++ behind) a (rest ++ behind))
  | stalls (stalls : Stalls p words)
      (carries : opened ≤ balance words → StallsWithin behind.length p' (words ++ behind))
  | aborts (aborts : Aborts p words)
      (carries : opened ≤ balance words → AbortsWithin behind.length p' (words ++ behind))

/-- So many parentheses are open, and there are no more words than before. -/
def Leaves (opened : Int) (words : List Word) (_ : α) (opened' : Int) (rest : List Word) : Prop :=
  opened' = opened ∧ rest.length ≤ words.length

/-- There are no more words than before, and even less than with another word before them. -/
theorem Leaves.cons {opened opened' : Int} {word : Word} {words rest : List Word} {a : α}
    (h : Leaves opened words a opened' rest) : Leaves opened (word :: words) a opened' rest :=
  ⟨h.1, Nat.le_succ_of_le h.2⟩

/-- Behind a step of a repetition, so many parentheses are open and there are fewer words, unless the
repetition is done. -/
def LeavesStep (opened opened' : Int) (words : List Word) (next : Step σ) (opened'' : Int)
    (rest : List Word) : Prop :=
  match next with
  | .more _ => opened'' = opened ∧ rest.length < words.length
  | .done _ => opened'' = opened' ∧ rest.length ≤ words.length

/-- Whatever the parser does in front of any words carries over. -/
def Carried (behind : List Word) (opened opened' : Int) (p : Parser α) : Prop :=
  ∀ words, Carries behind opened p p words (Leaves opened' words)

/-- Whatever the parser does in front of any words carries over, and a value takes words away. -/
def CarriedAhead (behind : List Word) (opened opened' : Int) (p : Parser α) : Prop :=
  ∀ words, Carries behind opened p p words fun _ opened'' rest =>
    opened'' = opened' ∧ rest.length < words.length

/-- Whatever a step of a repetition does in front of any words carries over. -/
def CarriedStep (behind : List Word) (opened opened' : Int) (step : σ → Parser (Step σ)) : Prop :=
  ∀ state words, Carries behind opened (step state) (step state) words
    (LeavesStep opened opened' words)

namespace Carries

variable {behind words rest : List Word} {opened opened' : Int} {p p' q q' : Parser α}
  {P Q : α → Int → List Word → Prop} {R : β → Int → List Word → Prop} {kind : TokenKind}

/-- The condition may be weakened. -/
theorem mono (h : Carries behind opened p p' words P)
    (hPQ : ∀ a opened' rest, P a opened' rest → Q a opened' rest) :
    Carries behind opened p p' words Q := by
  cases h with
  | reads meets balanced reads carries => exact .reads (hPQ _ _ _ meets) balanced reads carries
  | stalls stalls carries => exact .stalls stalls carries
  | aborts aborts carries => exact .aborts aborts carries

/-- What carries over at the outermost level carries over inside a parenthesis. -/
theorem inside (h : Carries behind 0 p p' words fun a opened' rest => Q a (opened' + 1) rest) :
    Carries behind 1 p p' words Q := by
  cases h with
  | reads meets balanced reads carries =>
    exact .reads meets (by omega) reads fun closes => carries (by omega)
  | stalls stalls carries => exact .stalls stalls fun closes => carries (by omega)
  | aborts aborts carries => exact .aborts aborts fun closes => carries (by omega)

/-- What is read counts. -/
theorem balance_of_reads {a : α} (h : Carries behind opened p p' words (Leaves opened' words))
    (reads : Reads p words a rest) : balance rest + opened = balance words + opened' := by
  cases h with
  | reads meets balanced reads' _ =>
    obtain ⟨rfl, rfl⟩ := reads'.unique reads
    obtain ⟨rfl, -⟩ := meets
    exact balanced
  | stalls stalls _ => exact absurd stalls reads.not_stalls
  | aborts aborts _ => exact absurd reads aborts.not_reads

/-- What is read in front of the words is read in front of the longer text. -/
theorem readsWithin {a : α} (h : Carries behind opened p p' words P) (reads : Reads p words a rest)
    (close : opened ≤ balance words) :
    ReadsWithin behind.length p' (words ++ behind) a (rest ++ behind) := by
  cases h with
  | reads _ _ reads' carries =>
    obtain ⟨rfl, rfl⟩ := reads'.unique reads
    exact carries close
  | stalls stalls _ => exact absurd stalls reads.not_stalls
  | aborts aborts _ => exact absurd reads aborts.not_reads

/-- A parser that stalls in front of the words stalls in front of the longer text. -/
theorem stallsWithin (h : Carries behind opened p p' words P) (stalls : Stalls p words)
    (close : opened ≤ balance words) : StallsWithin behind.length p' (words ++ behind) := by
  cases h with
  | reads _ _ reads _ => exact absurd stalls reads.not_stalls
  | stalls _ carries => exact carries close
  | aborts aborts _ => exact absurd stalls aborts.not_stalls

/-- A parser that ends the parse in front of the words does so in front of the longer text. -/
theorem abortsWithin (h : Carries behind opened p p' words P) (aborts : Aborts p words)
    (close : opened ≤ balance words) : AbortsWithin behind.length p' (words ++ behind) := by
  cases h with
  | reads _ _ reads _ => exact absurd reads aborts.not_reads
  | stalls stalls _ => exact absurd stalls aborts.not_stalls
  | aborts _ carries => exact carries close

/-! ### Sequences -/

/-- A value that is yielded at once. -/
theorem pure {a : α} (h : Q a opened words) :
    Carries behind opened (pure a) (Pure.pure a) words Q :=
  .reads h rfl (.pure a words) fun _ => .pure a (words ++ behind)

/-- A parser that fails at once. -/
theorem fail : Carries behind opened (fail : Parser α) Parser.fail words Q :=
  .stalls (.fail words) fun _ => .fail (words ++ behind)

/-- A parser that fails at once, with notes. -/
theorem failExpecting (kinds : List TokenKind) :
    Carries behind opened (failExpecting kinds : Parser α) (Parser.failExpecting kinds) words Q :=
  .stalls (.failExpecting kinds words) fun _ => .failExpecting (by simp) kinds

/-- A sequence carries over if its parts do. -/
theorem bind {f f' : α → Parser β} (hp : Carries behind opened p p' words P)
    (hf : ∀ a opened' rest, P a opened' rest → Carries behind opened' (f a) (f' a) rest R) :
    Carries behind opened (p >>= f) (p' >>= f') words R := by
  cases hp with
  | @reads a opened' middle meets balanced reads carries =>
    cases hf a opened' middle meets with
    | reads meets' balanced' reads' carries' =>
      exact .reads meets' (by omega) (reads.bind reads') fun closes =>
        (carries closes).bind (carries' (by omega))
    | stalls stalls' carries' =>
      exact .stalls (.bind_right reads stalls') fun closes =>
        .bind_right (carries closes) (carries' (by omega))
    | aborts aborts' carries' =>
      exact .aborts (.bind_right reads aborts') fun closes =>
        .bind_right (carries closes) (carries' (by omega))
  | stalls stalls carries => exact .stalls stalls.bind_left fun closes => (carries closes).bind_left
  | aborts aborts carries => exact .aborts aborts.bind_left fun closes => (carries closes).bind_left

/-- The value of a parser may be mapped. -/
theorem map {g : α → β}
    (hp : Carries behind opened p p' words fun a opened' rest => R (g a) opened' rest) :
    Carries behind opened (g <$> p) (g <$> p') words R := by
  rw [map_eq_pure_bind, map_eq_pure_bind]
  exact hp.bind fun a _ rest meets => pure meets

/-- A choice by a condition carries over if its parts do. -/
theorem ite {c : Prop} [Decidable c] (hp : c → Carries behind opened p p' words Q)
    (hq : ¬c → Carries behind opened q q' words Q) :
    Carries behind opened (if c then p else q) (if c then p' else q') words Q := by
  by_cases h : c
  · rw [if_pos h, if_pos h]
    exact hp h
  · rw [if_neg h, if_neg h]
    exact hq h

/-- What a parser says that only looks at the words ahead may differ, if what follows does not. -/
theorem look_bind {f : α → Parser β} {a a' : α} (reads : Reads p words a words)
    (carries : opened ≤ balance words →
      ReadsWithin behind.length p' (words ++ behind) a' (words ++ behind))
    (same : opened ≤ balance words → f a' = f a)
    (h : Carries behind opened (f a) (f a) words R) :
    Carries behind opened (p >>= f) (p' >>= f) words R := by
  cases h with
  | reads meets balanced reads' after =>
    exact .reads meets balanced (reads.bind reads') fun closes =>
      (carries closes).bind (same closes ▸ after closes)
  | stalls stalls after =>
    exact .stalls (.bind_right reads stalls) fun closes =>
      .bind_right (carries closes) (same closes ▸ after closes)
  | aborts aborts after =>
    exact .aborts (.bind_right reads aborts) fun closes =>
      .bind_right (carries closes) (same closes ▸ after closes)

/-! ### Tokens -/

/-- With words behind them, words still start with their first word, or with what closes them. -/
theorem firstKind_append (words behind : List Word) :
    firstKind (words ++ behind) = firstKind words ∨
      words = [] ∧ firstKind (words ++ behind) = firstKind behind := by
  cases words with
  | nil => exact .inr ⟨rfl, rfl⟩
  | cons word rest => exact .inl rfl

/-- A kind is ahead in front of the longer text if it is ahead in front of the words. -/
theorem firstKind_append_iff (hkind : kind ≠ .eof) (within : kind = firstKind behind → 0 < opened)
    (close : opened ≤ balance words) : firstKind (words ++ behind) = kind ↔ firstKind words = kind := by
  rcases firstKind_append words behind with same | ⟨rfl, closing⟩
  · rw [same]
  · rw [closing, firstKind_nil]
    refine ⟨fun h => ?_, fun h => absurd h.symm hkind⟩
    rw [balance_nil] at close
    have := within h.symm
    omega

/-- A kind that is looked for. -/
theorem check (hkind : kind ≠ .eof) (within : kind = firstKind behind → 0 < opened) :
    Carries behind opened (check kind) (Parser.check kind) words fun there opened' rest =>
      opened' = opened ∧ rest = words ∧ (there = true ↔ firstKind words = kind) := by
  by_cases there : firstKind words = kind
  · refine .reads ⟨rfl, rfl, by simp [there]⟩ rfl (.check_true there) fun close => ?_
    exact .check_true (by simp) ((firstKind_append_iff hkind within close).mpr there)
  · refine .reads ⟨rfl, rfl, by simp [there]⟩ rfl (.check_false there) fun close => ?_
    exact .check_false (by simp) fun h => there ((firstKind_append_iff hkind within close).mp h)

/-- A kind that is looked for and is plain. -/
theorem checkPlain (closes : EndsArgument behind) (hkind : kind.IsPlain) :
    Carries behind opened (Parser.check kind) (Parser.check kind) words fun there opened' rest =>
      opened' = opened ∧ rest = words ∧ (there = true ↔ firstKind words = kind) :=
  check hkind.2.2.2 fun h => absurd h (closes.ne hkind)

/-- What follows a look at the kind ahead, if it does not tell what ends an argument from the end. -/
theorem currentKind_bind {f : TokenKind → Parser β} (closes : EndsArgument behind)
    (paren : f .rightParen = f .eof) (comma : f .comma = f .eof)
    (h : Carries behind opened (f (firstKind words)) (f (firstKind words)) words R) :
    Carries behind opened (currentKind >>= f) (currentKind >>= f) words R := by
  refine look_bind (.currentKind words) (fun _ => .of_look (.currentKind _) fun _ => rfl) (fun _ => ?_) h
  rcases firstKind_append words behind with ahead | ⟨rfl, ahead⟩
  · rw [ahead]
  · rw [ahead, closes.same paren comma]
    rfl

/-- What follows a look at the kind behind the first word, if it does not tell what ends an
argument from the end. -/
theorem nextKind_bind {f : TokenKind → Parser β} {word : Word} (closes : EndsArgument behind)
    (paren : f .rightParen = f .eof) (comma : f .comma = f .eof)
    (h : Carries behind opened (f (firstKind rest)) (f (firstKind rest)) (word :: rest) R) :
    Carries behind opened (nextKind >>= f) (nextKind >>= f) (word :: rest) R := by
  have next : Reads nextKind (word :: rest) (firstKind rest) (word :: rest) := by
    rw [← secondKind_cons word]
    exact .nextKind _
  have next' : Reads nextKind (word :: rest ++ behind) (firstKind (rest ++ behind))
      (word :: rest ++ behind) := by
    rw [← secondKind_cons word]
    exact .nextKind _
  refine look_bind next (fun _ => .of_look next' fun _ => rfl) (fun _ => ?_) h
  rcases firstKind_append rest behind with ahead | ⟨rfl, ahead⟩
  · rw [ahead]
  · rw [ahead, closes.same paren comma]
    rfl

/-- What follows a look at the current token, if it sees only the word and does not tell what ends an
argument from the end. -/
theorem current_bind {f : Token → Parser β} (closes : EndsArgument behind)
    (seen : ∀ token, f token = f token.word.token)
    (same : words = [] → ∀ closing : Word, closing.kind = .rightParen ∨ closing.kind = .comma →
      f closing.token = f endWord.token)
    (h : Carries behind opened (f (words.headD endWord).token) (f (words.headD endWord).token)
      words R) :
    Carries behind opened (current >>= f) (current >>= f) words R := by
  have ahead : f ((words ++ behind).headD endWord).token = f (words.headD endWord).token := by
    cases words with
    | cons word rest => rfl
    | nil =>
      obtain ⟨closing, tail, rfl, hkind⟩ := closes.exists_cons
      exact same rfl closing hkind
  have seen' {token : Token} {words : List Word} (h : token.word = words.headD endWord) :
      f token = f (words.headD endWord).token := h ▸ seen token
  cases h with
  | reads meets balanced reads carries =>
    exact .reads meets balanced (.current_bind fun _ h => seen' h ▸ reads) fun close =>
      .current_bind fun _ h => (seen' h).trans ahead ▸ carries close
  | stalls stalls carries =>
    exact .stalls (.current_bind fun _ h => seen' h ▸ stalls) fun close =>
      .current_bind fun _ h => (seen' h).trans ahead ▸ carries close
  | aborts aborts carries =>
    exact .aborts (.current_bind fun _ h => seen' h ▸ aborts) fun close =>
      .current_bind fun _ h => (seen' h).trans ahead ▸ carries close

/-- Behind a token the first word is gone. -/
theorem advance_bind {word : Word} {q q' : Parser β}
    (counts : balance rest + opened = balance (word :: rest) + opened')
    (h : Carries behind opened' q q' rest R) :
    Carries behind opened (advance >>= fun _ => q) (advance >>= fun _ => q') (word :: rest) R := by
  cases h with
  | reads meets balanced reads carries =>
    exact .reads meets (by omega) (.advance_bind fun _ _ => reads) fun close =>
      .advance_bind fun _ _ => carries (by omega)
  | stalls stalls carries =>
    exact .stalls (.advance_bind fun _ _ => stalls) fun close =>
      .advance_bind fun _ _ => carries (by omega)
  | aborts aborts carries =>
    exact .aborts (.advance_bind fun _ _ => aborts) fun close =>
      .advance_bind fun _ _ => carries (by omega)

/-- Behind a token that is no parenthesis the first word is gone. -/
theorem advancePlain_bind {q q' : Parser β} (hkind : (firstKind words).IsPlain)
    (h : ∀ word rest, words = word :: rest → Carries behind opened q q' rest R) :
    Carries behind opened (advance >>= fun _ => q) (advance >>= fun _ => q') words R := by
  obtain ⟨word, rest, rfl, same⟩ := exists_cons_of_firstKind hkind.2.2.2 rfl
  refine advance_bind ?_ (h word rest rfl)
  rw [balance_plain rest (same ▸ hkind)]

/-- A word that may be eaten is there or not. -/
theorem eat_bind {f f' : Bool → Parser β} (opened' : Int) (hkind : kind ≠ .eof)
    (within : kind = firstKind behind → 0 < opened)
    (counts : ∀ word rest, word.kind = kind →
      balance rest + opened = balance (word :: rest) + opened')
    (found : ∀ word rest, words = word :: rest → word.kind = kind →
      Carries behind opened' (f true) (f' true) rest R)
    (missed : firstKind words ≠ kind → Carries behind opened (f false) (f' false) words R) :
    Carries behind opened (eat kind >>= f) (eat kind >>= f') words R := by
  unfold eat
  rw [bind_assoc, bind_assoc]
  refine (check hkind within).bind ?_
  rintro there _ _ ⟨rfl, rfl, ahead⟩
  cases there with
  | false =>
    simp only [Bool.false_eq_true, ↓reduceIte, pure_bind]
    exact missed fun h => Bool.false_ne_true (ahead.mpr h)
  | true =>
    obtain ⟨word, rest, rfl, same⟩ := exists_cons_of_firstKind hkind (ahead.mp rfl)
    simp only [↓reduceIte, bind_assoc, pure_bind]
    exact advance_bind (counts word rest same) (found word rest rfl same)

/-- A word that has to be there is there, or the parser stalls. -/
theorem expect_bind {q q' : Parser β} (opened' : Int) (hkind : kind ≠ .eof)
    (within : kind = firstKind behind → 0 < opened)
    (counts : ∀ word rest, word.kind = kind →
      balance rest + opened = balance (word :: rest) + opened')
    (found : ∀ word rest, words = word :: rest → word.kind = kind →
      Carries behind opened' q q' rest R) :
    Carries behind opened (expect kind >>= fun _ => q) (expect kind >>= fun _ => q') words R := by
  unfold expect
  rw [bind_assoc, bind_assoc]
  refine (check hkind within).bind ?_
  rintro there _ _ ⟨rfl, rfl, ahead⟩
  cases there with
  | false =>
    simp only [Bool.false_eq_true, ↓reduceIte]
    exact fail.bind (P := fun _ _ _ => False) fun _ _ _ h => h.elim
  | true =>
    obtain ⟨word, rest, rfl, same⟩ := exists_cons_of_firstKind hkind (ahead.mp rfl)
    simp only [↓reduceIte]
    exact advance_bind (counts word rest same) (found word rest rfl same)

/-- A word that may be eaten, and is plain, is there or not. -/
theorem eatPlain_bind {f f' : Bool → Parser β} (closes : EndsArgument behind) (hkind : kind.IsPlain)
    (found : ∀ word rest, words = word :: rest → Carries behind opened (f true) (f' true) rest R)
    (missed : Carries behind opened (f false) (f' false) words R) :
    Carries behind opened (eat kind >>= f) (eat kind >>= f') words R :=
  eat_bind opened hkind.2.2.2 (fun h => absurd h (closes.ne hkind))
    (fun _ rest same => by rw [balance_plain rest (same ▸ hkind)])
    (fun word rest split _ => found word rest split) fun _ => missed

/-- A word that has to be there, and is plain, is there, or the parser stalls. -/
theorem expectPlain_bind {q q' : Parser β} (closes : EndsArgument behind) (hkind : kind.IsPlain)
    (found : ∀ word rest, words = word :: rest → Carries behind opened q q' rest R) :
    Carries behind opened (expect kind >>= fun _ => q) (expect kind >>= fun _ => q') words R :=
  expect_bind opened hkind.2.2.2 (fun h => absurd h (closes.ne hkind))
    (fun _ rest same => by rw [balance_plain rest (same ▸ hkind)])
    fun word rest split _ => found word rest split

/-! ### Alternatives -/

/-- A choice between alternatives that give up where they began. -/
theorem firstOf (settles : ∀ words, Stalls p words → Fails p words)
    (hp : Carries behind opened p p words Q) (hq : Carries behind opened q q words Q) :
    Carries behind opened (firstOf p q) (Parser.firstOf p q) words Q := by
  cases hp with
  | reads meets balanced reads carries =>
    exact .reads meets balanced (.firstOf_left reads) fun close => .firstOf_left (carries close)
  | aborts aborts carries =>
    exact .aborts (.firstOf_left aborts) fun close => .firstOf_left (carries close)
  | stalls stalls carries =>
    have fails := settles words stalls
    have fails' (close : opened ≤ balance words) := settles _ (carries close).stalls
    cases hq with
    | reads meets balanced reads carries' =>
      exact .reads meets balanced (.firstOf_right fails reads) fun close =>
        .firstOf_right (fails' close) (carries close).keeps (carries' close)
    | stalls stalls' carries' =>
      exact .stalls (.firstOf fails stalls') fun close =>
        .firstOf (fails' close) (carries close).keeps (carries' close)
    | aborts aborts carries' =>
      exact .aborts (.firstOf_right fails aborts) fun close =>
        .firstOf_right (fails' close) (carries close).keeps (carries' close)

/-- An optional part that gives up where it began. -/
theorem optional {Q : Option α → Int → List Word → Prop}
    (settles : ∀ words, Stalls p words → Fails p words)
    (hp : Carries behind opened p p words fun a opened' rest => Q (some a) opened' rest)
    (missed : Q none opened words) :
    Carries behind opened (optional p) (Parser.optional p) words Q := by
  cases hp with
  | reads meets balanced reads carries =>
    exact .reads meets balanced (.optional_some reads) fun close => .optional_some (carries close)
  | stalls stalls carries =>
    exact .reads missed rfl (.optional_none (settles words stalls)) fun close =>
      .optional_none (settles _ (carries close).stalls) (carries close).keeps
  | aborts aborts carries => exact .aborts (.optional aborts) fun close => .optional (carries close)

/-- What would be survived if there were recovery. -/
theorem orRecover (sync : List TokenKind) (ifFailed : α)
    (hp : Carries behind opened p p' words Q) :
    Carries behind opened (orRecover p sync ifFailed) (Parser.orRecover p' sync ifFailed) words Q := by
  cases hp with
  | reads meets balanced reads carries =>
    exact .reads meets balanced (.orRecover sync ifFailed reads) fun close =>
      .orRecover sync ifFailed (carries close)
  | stalls stalls carries =>
    exact .stalls (.orRecover sync ifFailed stalls) fun close =>
      .orRecover sync ifFailed (carries close)
  | aborts aborts carries =>
    exact .aborts (.orRecover sync ifFailed aborts) fun close =>
      .orRecover sync ifFailed (carries close)

/-- A rule carries over if its body does. -/
theorem apply {rule : Rule} {allowance : Nat} {Q : rule.Result → Int → List Word → Prop}
    (h : Carries behind opened (body true (Grammar.apply true allowance) rule)
      (body true (Grammar.apply true allowance) rule) words Q) :
    Carries behind opened (Grammar.apply true (allowance + 1) rule)
      (Grammar.apply true (allowance + 1) rule) words Q := by
  cases h with
  | reads meets balanced reads carries =>
    exact .reads meets balanced (.apply reads) fun close => .apply (carries close)
  | stalls stalls carries => exact .stalls (.apply stalls) fun close => .apply (carries close)
  | aborts aborts carries =>
    exact .aborts (.apply_succ aborts) fun close => .apply_succ (carries close)

end Carries

/-! ### For all words -/

namespace Carried

variable {behind : List Word} {opened opened' opened'' : Int} {p q : Parser α} {kind : TokenKind}

/-- What carries over at the outermost level carries over inside a parenthesis. -/
theorem inside (h : Carried behind 0 0 p) : Carried behind 1 1 p := fun words =>
  .inside <| (h words).mono fun _ _ _ ⟨same, fewer⟩ => ⟨by omega, fewer⟩

/-- A value that is yielded at once. -/
theorem pure (a : α) : Carried behind opened opened (Pure.pure a) := fun _ =>
  .pure ⟨rfl, Nat.le_refl _⟩

/-- A parser that fails at once. -/
theorem fail : Carried behind opened opened' (fail : Parser α) := fun _ => .fail

/-- A sequence carries over if its parts do. -/
theorem bind {f : α → Parser β} (hp : Carried behind opened opened' p)
    (hf : ∀ a, Carried behind opened' opened'' (f a)) : Carried behind opened opened'' (p >>= f) := by
  refine fun words => (hp words).bind ?_
  rintro a _ rest ⟨rfl, fewer⟩
  exact (hf a rest).mono fun _ _ _ ⟨same, fewer'⟩ => ⟨same, Nat.le_trans fewer' fewer⟩

/-- The value of a parser may be mapped. -/
theorem map (g : α → β) (hp : Carried behind opened opened' p) :
    Carried behind opened opened' (g <$> p) :=
  fun words => .map (hp words)

/-- A choice by a condition carries over if its parts do. -/
theorem ite (c : Prop) [Decidable c] (hp : Carried behind opened opened' p)
    (hq : Carried behind opened opened' q) : Carried behind opened opened' (if c then p else q) :=
  fun words => .ite (fun _ => hp words) fun _ => hq words

/-- The precedence is the same. -/
theorem precedence_bind {f : PrecedenceTable → Parser β} (h : Carried behind opened opened' (f .adql)) :
    Carried behind opened opened' (precedence >>= f) := fun words =>
  .look_bind (.precedence words) (fun _ => .of_look (.precedence _) fun _ => rfl) (fun _ => rfl)
    (h words)

/-- There is no recovery. -/
theorem canRecover_bind {f : Bool → Parser β} (h : Carried behind opened opened' (f false)) :
    Carried behind opened opened' (canRecover >>= f) := fun words =>
  .look_bind (.canRecover words) (fun _ => .of_look (.canRecover _) fun _ => rfl) (fun _ => rfl)
    (h words)

/-- A choice between alternatives that give up where they began. -/
theorem firstOf (settles : ∀ words, Stalls p words → Fails p words)
    (hp : Carried behind opened opened' p) (hq : Carried behind opened opened' q) :
    Carried behind opened opened' (firstOf p q) :=
  fun words => .firstOf settles (hp words) (hq words)

/-- An optional part that gives up where it began. -/
theorem optional (settles : ∀ words, Stalls p words → Fails p words)
    (hp : Carried behind opened opened p) : Carried behind opened opened (optional p) :=
  fun words => .optional settles (hp words) ⟨rfl, Nat.le_refl _⟩

/-- What would be survived if there were recovery. -/
theorem orRecover (sync : List TokenKind) (ifFailed : α) (hp : Carried behind opened opened' p) :
    Carried behind opened opened' (orRecover p sync ifFailed) :=
  fun words => .orRecover sync ifFailed (hp words)

/-- A repetition carries over if its steps do. -/
theorem iterate {step : σ → Parser (Step σ)} (h : CarriedStep behind opened opened' step) (start : σ) :
    Carried behind opened opened' (iterate step start) := by
  -- there are more steps at most in front of the longer text, but each step leaves fewer words
  have repeated (count count' : Nat) (state : σ) (words : List Word) (enough : words.length < count)
      (enough' : words.length < count') : Carries behind opened (repeatAtMost step count state)
        (repeatAtMost step count' state) words (Leaves opened' words) := by
    induction count generalizing count' state words with
    | zero => omega
    | succ count ih =>
      obtain ⟨count', rfl⟩ : ∃ less, count' = less + 1 := ⟨count' - 1, by omega⟩
      refine (h state words).bind fun next _ rest leaves => ?_
      cases next with
      | more state' =>
        obtain ⟨rfl, fewer⟩ := leaves
        refine (ih count' state' rest (by omega) (by omega)).mono ?_
        exact fun _ _ _ ⟨same, fewer'⟩ => ⟨same, by omega⟩
      | done final => exact .pure leaves
  intro words
  have loop := repeated (words.length + 1) ((words ++ behind).length + 1) start words
    (Nat.lt_succ_self _) (by rw [List.length_append]; omega)
  have counted (words : List Word) :
      ReadsWithin behind.length remaining words words.length words :=
    .of_look (.remaining words) fun _ => rfl
  cases loop with
  | reads meets balanced reads carries =>
    exact .reads meets balanced ((Reads.remaining _).bind reads) fun close =>
      (counted _).bind (carries close)
  | stalls stalls carries =>
    exact .stalls (.bind_right (.remaining _) stalls) fun close =>
      .bind_right (counted _) (carries close)
  | aborts aborts carries =>
    exact .aborts (.bind_right (.remaining _) aborts) fun close =>
      .bind_right (counted _) (carries close)

variable (closes : EndsArgument behind)

include closes

/-! ### Tokens -/

omit closes in
/-- A kind that is looked for. -/
theorem check (hkind : kind ≠ .eof) (within : kind = firstKind behind → 0 < opened) :
    Carried behind opened opened (check kind) := fun _ =>
  (Carries.check hkind within).mono
    fun _ _ _ ⟨same, ahead, _⟩ => ⟨same, Nat.le_of_eq (congrArg List.length ahead)⟩

/-- A reserved word that is looked for. -/
theorem checkWord (keyword : Keyword) : Carried behind opened opened (checkWord keyword) :=
  check nofun fun h => absurd h (closes.ne (.keyword keyword))

/-- What follows a look at the kind ahead, if it does not tell what ends an argument from the end. -/
theorem currentKind_bind {f : TokenKind → Parser β} (paren : f .rightParen = f .eof)
    (comma : f .comma = f .eof) (h : ∀ kind, Carried behind opened opened' (f kind)) :
    Carried behind opened opened' (currentKind >>= f) :=
  fun words => .currentKind_bind closes paren comma (h _ words)

/-- A word that may be eaten and is plain. -/
theorem eat_bind {f : Bool → Parser β} (hkind : kind.IsPlain)
    (h : ∀ eaten, Carried behind opened opened' (f eaten)) :
    Carried behind opened opened' (eat kind >>= f) := by
  refine fun words => .eatPlain_bind closes hkind (fun word rest split => ?_) (h false words)
  subst split
  exact (h true rest).mono fun _ _ _ => .cons

/-- A word that may be eaten and is plain. -/
theorem eat (hkind : kind.IsPlain) : Carried behind opened opened (eat kind) := by
  rw [← bind_pure (Parser.eat kind)]
  exact eat_bind closes hkind fun eaten => .pure eaten

/-- A reserved word that may be eaten. -/
theorem eatWord_bind {keyword : Keyword} {f : Bool → Parser β}
    (h : ∀ eaten, Carried behind opened opened' (f eaten)) :
    Carried behind opened opened' (eatWord keyword >>= f) :=
  eat_bind closes (.keyword keyword) h

/-- A reserved word that may be eaten. -/
theorem eatWord (keyword : Keyword) : Carried behind opened opened (eatWord keyword) :=
  eat closes (.keyword keyword)

/-- An opening parenthesis that may be eaten. -/
theorem eatOpening_bind {f : Bool → Parser β} (found : Carried behind 1 opened (f true))
    (missed : Carried behind 0 opened (f false)) :
    Carried behind 0 opened (Parser.eat .leftParen >>= f) := by
  have opens (h : .leftParen = firstKind behind) : (0 : Int) < 0 := absurd h closes.ne_opening
  refine fun words => .eat_bind 1 nofun opens (fun word rest same => ?_)
    (fun word rest split _ => ?_) fun _ => missed words
  · rw [balance_opening rest same]
    omega
  · subst split
    exact (found rest).mono fun _ _ _ => .cons

/-- A word that has to be there and is plain. -/
theorem expect_bind {q : Parser β} (hkind : kind.IsPlain) (h : Carried behind opened opened' q) :
    Carried behind opened opened' (expect kind >>= fun _ => q) := by
  refine fun words => .expectPlain_bind closes hkind fun word rest split => ?_
  subst split
  exact (h rest).mono fun _ _ _ => .cons

/-- A reserved word that has to be there. -/
theorem expectWord_bind {keyword : Keyword} {q : Parser β} (h : Carried behind opened opened' q) :
    Carried behind opened opened' (expectWord keyword >>= fun _ => q) := by
  unfold expectWord
  rw [bind_assoc]
  exact expect_bind closes (.keyword keyword) h

/-- A reserved word that has to be there. -/
theorem expectWord (keyword : Keyword) : Carried behind opened opened (expectWord keyword) :=
  expect_bind closes (.keyword keyword) (.pure ())

/-- An opening parenthesis that has to be there. -/
theorem opening_bind {q : Parser β} (h : Carried behind 1 opened q) :
    Carried behind 0 opened (expect .leftParen >>= fun _ => q) := by
  have opens (h : .leftParen = firstKind behind) : (0 : Int) < 0 := absurd h closes.ne_opening
  refine fun words => .expect_bind 1 nofun opens (fun word rest same => ?_)
    fun word rest split _ => ?_
  · rw [balance_opening rest same]
    omega
  · subst split
    exact (h rest).mono fun _ _ _ => .cons

omit closes in
/-- A closing parenthesis that has to be there. -/
theorem closing_bind {q : Parser β} (h : Carried behind 0 opened q) :
    Carried behind 1 opened (expect .rightParen >>= fun _ => q) := by
  refine fun words => .expect_bind 0 nofun (fun _ => by decide) (fun word rest same => ?_)
    fun word rest split _ => ?_
  · rw [balance_closing rest same]
    omega
  · subst split
    exact (h rest).mono fun _ _ _ => .cons

/-- A name. -/
theorem identifier : Carried behind opened opened identifier := by
  intro words
  rcases identifier_decided words with ⟨name, word, rest, rfl, named, reads⟩ | ⟨missing, stalls⟩
  · have plain : word.kind.IsPlain := by
      cases hkind : word.kind with
      | identifier | delimitedIdentifier => decide
      | _ => rw [hkind] at named; cases named
    refine .reads ⟨rfl, Nat.le_succ _⟩ ?_ (reads rest) fun _ =>
      ⟨reads (rest ++ behind), .identifier (by simp; omega)⟩
    rw [balance_plain rest plain]
  · refine .stalls stalls fun _ => ⟨identifier_stalls ?_, .identifier (by simp)⟩
    rcases Carries.firstKind_append words behind with same | ⟨_, closing⟩
    · rw [same, missing]
    · rw [closing]
      exact closes.same rfl rfl

/-! ### Lists and clauses -/

/-- What stands behind a word, or a default. -/
theorem afterWord (keyword : Keyword) (default : α) (h : Carried behind opened opened p) :
    Carried behind opened opened (afterWord keyword default p) := by
  refine eatWord_bind closes fun eaten => ?_
  cases eaten with
  | false => exact .pure default
  | true => exact h

omit closes in
/-- A list with separators that are no parentheses, nor what ends an argument outside parentheses. -/
theorem oneOrMore {separator : TokenKind} (hkind : separator ≠ .eof)
    (plain : separator ≠ .leftParen ∧ separator ≠ .rightParen)
    (within : separator = firstKind behind → 0 < opened) (h : Carried behind opened opened p) :
    Carried behind opened opened (oneOrMore separator p) := by
  have step : CarriedStep behind opened opened (listStep separator p) := by
    intro items words
    refine .eat_bind opened hkind within (fun word rest same => ?_)
      (fun word rest split _ => ?_) fun _ => .pure ⟨rfl, Nat.le_refl _⟩
    · rw [balance_eq rest (same ▸ plain)]
    · subst split
      refine (h rest).bind fun item _ _ ⟨same, fewer⟩ => .pure ⟨same, ?_⟩
      exact Nat.lt_succ_of_le fewer
  exact h.bind fun first => (iterate step #[first]).bind fun items => .pure items.toList

/-- A list with points between the items. -/
theorem pointed (h : Carried behind opened opened p) :
    Carried behind opened opened (Parser.oneOrMore .dot p) :=
  oneOrMore nofun (by decide) (fun h => absurd h (closes.ne (by decide))) h

omit closes in
/-- A list with commas between the items, inside parentheses unless a parenthesis is what ends it. -/
theorem listed (within : firstKind behind = .comma → 0 < opened)
    (h : Carried behind opened opened p) :
    Carried behind opened opened (Parser.oneOrMore .comma p) :=
  oneOrMore nofun (by decide) (fun h => within h.symm) h

/-- What stands in parentheses. -/
theorem inParentheses (h : Carried behind 1 1 p) : Carried behind 0 0 (inParentheses p) :=
  opening_bind closes <| h.bind fun value => closing_bind (.pure value)

end Carried

/-! ### Moving ahead -/

namespace CarriedAhead

variable {behind : List Word} {opened opened' opened'' : Int} {p q : Parser α} {kind : TokenKind}

/-- A parser that fails at once. -/
theorem fail : CarriedAhead behind opened opened' (fail : Parser α) := fun _ => .fail

/-- That words are taken away may be forgotten. -/
theorem carried (h : CarriedAhead behind opened opened' p) : Carried behind opened opened' p :=
  fun words => (h words).mono fun _ _ _ ⟨same, fewer⟩ => ⟨same, Nat.le_of_lt fewer⟩

/-- The first part of a sequence may take words away. -/
theorem bind_left {f : α → Parser β} (hp : CarriedAhead behind opened opened' p)
    (hf : ∀ a, Carried behind opened' opened'' (f a)) :
    CarriedAhead behind opened opened'' (p >>= f) := by
  refine fun words => (hp words).bind ?_
  rintro a _ rest ⟨rfl, fewer⟩
  exact (hf a rest).mono fun _ _ _ ⟨same, fewer'⟩ => ⟨same, Nat.lt_of_le_of_lt fewer' fewer⟩

/-- The rest of a sequence may take words away. -/
theorem bind_right {f : α → Parser β} (hp : Carried behind opened opened' p)
    (hf : ∀ a, CarriedAhead behind opened' opened'' (f a)) :
    CarriedAhead behind opened opened'' (p >>= f) := by
  refine fun words => (hp words).bind ?_
  rintro a _ rest ⟨rfl, fewer⟩
  exact (hf a rest).mono fun _ _ _ ⟨same, fewer'⟩ => ⟨same, Nat.lt_of_lt_of_le fewer' fewer⟩

variable (closes : EndsArgument behind)

include closes

/-- A word that is eaten is taken away. -/
theorem eat_bind {f : Bool → Parser β} (hkind : kind.IsPlain)
    (found : Carried behind opened opened' (f true))
    (missed : CarriedAhead behind opened opened' (f false)) :
    CarriedAhead behind opened opened' (eat kind >>= f) := by
  refine fun words => .eatPlain_bind closes hkind (fun word rest split => ?_) (missed words)
  subst split
  exact (found rest).mono fun _ _ _ ⟨same, fewer⟩ => ⟨same, Nat.lt_succ_of_le fewer⟩

/-- A reserved word that is eaten is taken away. -/
theorem eatWord_bind {keyword : Keyword} {f : Bool → Parser β}
    (found : Carried behind opened opened' (f true))
    (missed : CarriedAhead behind opened opened' (f false)) :
    CarriedAhead behind opened opened' (eatWord keyword >>= f) :=
  eat_bind closes (.keyword keyword) found missed

/-- A word that has to be there is taken away. -/
theorem expect_bind {q : Parser β} (hkind : kind.IsPlain) (h : Carried behind opened opened' q) :
    CarriedAhead behind opened opened' (expect kind >>= fun _ => q) := by
  refine fun words => .expectPlain_bind closes hkind fun word rest split => ?_
  subst split
  exact (h rest).mono fun _ _ _ ⟨same, fewer⟩ => ⟨same, Nat.lt_succ_of_le fewer⟩

end CarriedAhead

/-! ### Rules -/

/-- Is it a rule for expressions, or one that they need?  What such a rule reads holds commas inside
parentheses only. -/
def Rule.isExpression : Rule → Bool
  | .expression | .operators _ | .parenthesized | .parenthesizedTrial | .scalarSubquery
  | .subqueryTrial | .exists | .aggregate | .functionCall | .geometry _ | .case | .cast | .dataType =>
    true
  | _ => false

/-- Whatever the rules do inside parentheses carries over, and so does what the rules for expressions
do anywhere; the rules with names give up where they began. -/
structure CarriesExpressions (behind : List Word) (apply : (rule : Rule) → Parser rule.Result) :
    Prop where
  /-- The other words start with one that ends an argument. -/
  closes : EndsArgument behind
  /-- Whatever the rules for expressions do carries over. -/
  carries : ∀ rule words, rule.isExpression = true → rule.applies words →
    Carries behind 0 (apply rule) (apply rule) words (Leaves 0 words)
  /-- Whatever the rules do inside parentheses carries over. -/
  inner : ∀ rule words, rule.applies words →
    Carries behind 1 (apply rule) (apply rule) words (Leaves 1 words)
  /-- A rule with a name that fails leaves the words where it began. -/
  settles : ∀ (rule : Rule) (words : List Word), rule.name?.isSome = true →
    Stalls (apply rule) words → Fails (apply rule) words

/-- Whatever the rules do carries over, and the rules with names give up where they began. -/
structure CarriesRules (behind : List Word) (apply : (rule : Rule) → Parser rule.Result) : Prop where
  /-- The other words start with a closing parenthesis. -/
  closes : firstKind behind = .rightParen
  /-- Whatever the rules do carries over. -/
  carries : ∀ rule words, rule.applies words →
    Carries behind 0 (apply rule) (apply rule) words (Leaves 0 words)
  /-- A rule with a name that fails leaves the words where it began. -/
  settles : ∀ (rule : Rule) (words : List Word), rule.name?.isSome = true →
    Stalls (apply rule) words → Fails (apply rule) words

section

variable {behind : List Word} {apply : (rule : Rule) → Parser rule.Result}

/-- A rule for expressions that is applied anywhere carries over. -/
theorem CarriesExpressions.carried (rules : CarriesExpressions behind apply) (rule : Rule)
    (isExpression : rule.isExpression = true) (anywhere : ∀ words, rule.applies words) :
    Carried behind 0 0 (apply rule) :=
  fun words => rules.carries rule words isExpression (anywhere words)

/-- A rule that is applied anywhere inside parentheses carries over. -/
theorem CarriesExpressions.carriedInner (rules : CarriesExpressions behind apply) (rule : Rule)
    (anywhere : ∀ words, rule.applies words) : Carried behind 1 1 (apply rule) :=
  fun words => rules.inner rule words (anywhere words)

/-- A rule that is applied anywhere carries over. -/
theorem CarriesRules.carried (rules : CarriesRules behind apply) (rule : Rule)
    (anywhere : ∀ words, rule.applies words) : Carried behind 0 0 (apply rule) :=
  fun words => rules.carries rule words (anywhere words)

/-- A closing parenthesis ends an argument. -/
theorem CarriesRules.ends (rules : CarriesRules behind apply) : EndsArgument behind :=
  .inl rules.closes

/-- In front of a closing parenthesis, the rules for expressions are like all rules. -/
theorem CarriesRules.onExpressions (rules : CarriesRules behind apply) :
    CarriesExpressions behind apply where
  closes := rules.ends
  carries rule words _ applies := rules.carries rule words applies
  inner rule words applies :=
    .inside <| (rules.carries rule words applies).mono fun _ _ _ ⟨same, fewer⟩ => ⟨by omega, fewer⟩
  settles := rules.settles

end

end Adql
