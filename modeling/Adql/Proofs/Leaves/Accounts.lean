import Adql.Proofs.Grammar.Progress
import Adql.Proofs.Leaves.Tree

/-!
# Parsers that account for leaves

A cursor has read leaves if they stand, one for one, for the names, numbers and strings in front of
it (`TokenCursor.Read`).  `Accounts now front parser leaves` is a triple about a parser: where the
cursor has read the leaves in front and the current token is one of those in question, the cursor
has read the leaves of the value once the parser has succeeded, provided that there are no
diagnostics then.

There is one lemma for each way to combine parsers.  Alternatives that were given up are no
exception: they go back to where they began, and recovery, which skips tokens, leaves a diagnostic.
-/

namespace Adql

open Adql.Parser Adql.Grammar

/-! ### Cursors -/

/-- If the token is a regular name, it is no reserved word. -/
def Token.Unreserved (token : Token) : Prop :=
  token.kind = .identifier → Keyword.ofWord? token.lexeme = none

/-- The leaves that a single token stands for. -/
def Token.Leaves (token : Token) (leaves : List Leaf) : Prop :=
  List.Forall₂ Token.StandsFor ([token].filter Token.isLeaf) leaves

namespace Token

variable {token : Token} {leaf : Leaf}

/-- A token that is no leaf stands for none. -/
theorem leaves_nil (h : token.isLeaf = false) : token.Leaves [] := by
  rw [Leaves, List.filter_cons_of_neg (by simp [h])]
  exact .nil

/-- A token that stands for a leaf is one. -/
theorem StandsFor.isLeaf (h : token.StandsFor leaf) : token.isLeaf = true := by
  unfold Token.isLeaf
  cases h with
  | name name =>
    unfold identifier? at name
    split at name
    · next kind => rw [kind]; rfl
    · next kind => rw [kind]; rfl
    · cases name
  | geometry kind | integer kind | real kind | string kind => rw [kind]; rfl

/-- A token that stands for a leaf stands for no other. -/
theorem StandsFor.leaves (h : token.StandsFor leaf) : token.Leaves [leaf] := by
  rw [Leaves, List.filter_cons_of_pos h.isLeaf]
  exact .cons h .nil

end Token

namespace TokenCursor

variable {cursor : TokenCursor} {front more : List Leaf}

/-- The leaves stand for the names, numbers and strings in front of the cursor. -/
def Read (cursor : TokenCursor) (leaves : List Leaf) : Prop :=
  List.Forall₂ Token.StandsFor
    ((cursor.tokens.toList.take cursor.position).filter Token.isLeaf) leaves

/-- The tokens are those of a text: regular names are not reserved, and the last token is an end
marker. -/
structure Sound (cursor : TokenCursor) : Prop where
  /-- The last token is an end marker. -/
  final : cursor.final.kind = .eof
  /-- A regular name is no reserved word. -/
  unreserved : ∀ token ∈ cursor.tokens.toList, token.Unreserved

/-- The current token is one of the tokens, or the last one. -/
theorem current_cases (cursor : TokenCursor) :
    (∃ inside : cursor.position < cursor.tokens.size,
      cursor.current = cursor.tokens[cursor.position]) ∨
      cursor.tokens.size ≤ cursor.position ∧ cursor.current = cursor.final := by
  unfold current tokenAt
  rcases Nat.lt_or_ge cursor.position cursor.tokens.size with inside | beyond
  · refine .inl ⟨inside, ?_⟩
    rw [Array.getElem?_eq_getElem inside, Option.getD_some]
  · refine .inr ⟨beyond, ?_⟩
    rw [Array.getElem?_eq_none beyond, Option.getD_none]

/-- A regular name at the cursor is no reserved word. -/
theorem Sound.current (h : cursor.Sound) : cursor.current.Unreserved := by
  intro regular
  rcases cursor.current_cases with ⟨inside, same⟩ | ⟨_, same⟩
  · rw [same] at regular ⊢
    exact h.unreserved _ (Array.getElem_mem_toList inside) regular
  · rw [same, h.final] at regular
    cases regular

/-- Behind the current token, the leaves that it stands for have been read as well. -/
theorem Read.advance (sound : cursor.Sound) (h : cursor.Read front)
    (hmore : cursor.current.Leaves more) :
    cursor.advance.Read (front ++ more) := by
  unfold TokenCursor.advance
  rcases cursor.current_cases with ⟨inside, same⟩ | ⟨beyond, same⟩
  · rw [if_pos inside]
    have taken : cursor.tokens.toList.take (cursor.position + 1) =
        cursor.tokens.toList.take cursor.position ++ [cursor.current] := by
      rw [List.take_add_one, Array.getElem?_toList, Array.getElem?_eq_getElem inside, same]
      rfl
    unfold Read
    rw [taken, List.filter_append]
    exact List.rel_append h hmore
  · rw [if_neg (Nat.not_lt_of_le beyond)]
    have none : cursor.current.isLeaf = false := by rw [same, Token.isLeaf, sound.final]; rfl
    unfold Token.Leaves at hmore
    rw [List.filter_cons_of_neg (by simp [none])] at hmore
    cases hmore
    rwa [List.append_nil]

end TokenCursor

namespace Session

namespace Follows

variable {before after : Session}

/-- The tokens stay those of a text. -/
theorem sound (h : before.Follows after) (sound : before.cursor.Sound) : after.cursor.Sound where
  final := h.final ▸ sound.final
  unreserved := h.tokens ▸ sound.unreserved

/-- If the cursor stands where it stood, it is the same cursor. -/
theorem cursor_eq (h : before.Follows after)
    (position : after.cursor.position = before.cursor.position) : after.cursor = before.cursor := by
  obtain ⟨⟨tokens, final, position'⟩, _⟩ := before
  obtain ⟨⟨_, _, _⟩, _⟩ := after
  obtain rfl := h.tokens
  obtain rfl := h.final
  obtain rfl := position
  rfl

/-- If there are no diagnostics later, there have been none. -/
theorem quiet (h : before.Follows after) (quiet : after.errors.toList = []) :
    before.errors.toList = [] :=
  List.prefix_nil.mp (quiet ▸ h.errors)

end Follows

end Session

/-! ### Looking at tokens -/

variable {α β σ : Type}

/-- The parser does not move the cursor, and its value tells something about the current token. -/
structure Looks (parser : Parser α) (tells : α → Token → Prop) : Prop where
  /-- What is noted is noted. -/
  moves : ∀ before, Moves (fun value => tells value before.current) before (parser before)
  /-- The cursor stays. -/
  stays : ∀ before, (sessionAfter (parser before)).cursor = before.cursor

namespace Looks

/-- A look at the session changes nothing. -/
theorem of_get {parser : Parser α} {tells : α → Token → Prop} (value : Session → α)
    (run : ∀ before, parser before = .ok (value before) before)
    (h : ∀ before, tells (value before) before.current) : Looks parser tells where
  moves before := by
    rw [run]
    exact .ok (h before) (.refl before)
  stays before := by
    rw [run]
    rfl

/-- The current token is looked at. -/
theorem current : Looks current fun value token => token = value :=
  of_get (·.current) (fun _ => rfl) fun _ => rfl

/-- The kind of the current token is looked at. -/
theorem currentKind : Looks currentKind fun kind token => token.kind = kind :=
  of_get (·.current.kind) (fun _ => rfl) fun _ => rfl

/-- The kind of the next token is looked at. -/
theorem nextKind : Looks nextKind fun _ _ => True :=
  of_get (fun session => (session.cursor.peek 1).kind) (fun _ => rfl) fun _ => trivial

/-- The kinds of the tokens ahead are looked at. -/
theorem kindsAhead : Looks kindsAhead fun _ _ => True :=
  of_get (·.cursor.kindsAhead) (fun _ => rfl) fun _ => trivial

/-- The number of tokens ahead is looked at. -/
theorem remaining : Looks remaining fun _ _ => True :=
  of_get (·.cursor.remaining) (fun _ => rfl) fun _ => trivial

/-- The precedence of the operators is looked up. -/
theorem precedence : Looks precedence fun _ _ => True :=
  of_get (·.settings.precedence) (fun _ => rfl) fun _ => trivial

/-- The possibility to recover is looked up. -/
theorem canRecover : Looks canRecover fun _ _ => True :=
  of_get (·.canRecover) (fun _ => rfl) fun _ => trivial

/-- Nothing is looked at for a known value. -/
theorem pure {value : α} {tells : α → Token → Prop} (h : ∀ token, tells value token) :
    Looks (pure value) tells :=
  of_get (fun _ => value) (fun _ => rfl) fun _ => h _

/-- A test says of what kind the current token is if it succeeds. -/
theorem check (kind : TokenKind) :
    Looks (check kind) fun found token => found = true → token.kind = kind where
  moves before := by
    rw [check_run]
    split
    · next same => exact .ok (fun _ => same) (.refl before)
    · exact .ok nofun (.noting before kind)
  stays before := by
    rw [check_run]
    split
    · rfl
    · exact before.cursor_noting kind

/-- Behind a test, the same token is looked at once more. -/
theorem check_ite {kind : TokenKind} {p q : Parser α} {tells : α → Token → Prop}
    (found : Looks p fun value token => token.kind = kind → tells value token)
    (missed : Looks q tells) :
    Looks (Parser.check kind >>= fun there => if there = true then p else q) tells := by
  have run (before : Session) :
      (Parser.check kind >>= fun there => if there = true then p else q) before =
        if before.current.kind = kind then p before else q (before.noting kind) := by
    change EStateM.bind (Parser.check kind) _ before = _
    unfold EStateM.bind
    rw [check_run]
    by_cases same : before.current.kind = kind
    · rw [if_pos same, if_pos same]
      rfl
    · rw [if_neg same, if_neg same]
      rfl
  refine ⟨fun before => ?_, fun before => ?_⟩
  · rw [run]
    split
    · next same => exact (found.moves before).mono fun _ _ _ told => told same
    · have current : (before.noting kind).current = before.current :=
        congrArg TokenCursor.current (before.cursor_noting kind)
      have moves := missed.moves (before.noting kind)
      rw [current] at moves
      exact .of_follows (.noting before kind) moves
  · rw [run]
    split
    · exact found.stays before
    · rw [missed.stays, before.cursor_noting]

/-- Notes are made about the current token. -/
theorem noteAll (kinds : List TokenKind) : Looks (noteAll kinds) fun _ _ => True where
  moves before := .ok trivial (.foldl_noting kinds before)
  stays before := before.cursor_foldl_noting kinds

end Looks

/-! ### Values -/

/-- If the parser succeeds, its value meets the condition. -/
def Yields (parser : Parser α) (condition : α → Prop) : Prop :=
  ∀ before after value, parser before = .ok value after → condition value

/-- The state that a step of a repetition says. -/
def Parser.Step.state : Step σ → σ
  | .more state | .done state => state

namespace Yields

variable {p q : Parser α} {f : α → Parser β} {condition : α → Prop}
  {result : β → Prop}

/-- A value meets what it meets. -/
theorem pure {value : α} (h : condition value) : Yields (pure value) condition := by
  rintro _ _ _ ⟨⟩
  exact h

/-- A sequence yields what its rest yields. -/
theorem bind (hp : Yields p condition) (hf : ∀ value, condition value → Yields (f value) result) :
    Yields (p >>= f) result := by
  intro before after value run
  obtain ⟨a, between, run, run'⟩ := bind_run_ok.mp run
  exact hf a (hp before between a run) between after value run'

/-- A sequence yields what its rest yields, whatever its first part yields. -/
theorem bind_any (hf : ∀ value, Yields (f value) result) : Yields (p >>= f) result := by
  have any : Yields p fun _ => True := fun _ _ _ _ => trivial
  exact any.bind fun value _ => hf value

/-- A choice by a condition yields what its parts yield. -/
theorem ite {c : Prop} [Decidable c] (hp : Yields p condition) (hq : Yields q condition) :
    Yields (if c then p else q) condition := by
  split
  · exact hp
  · exact hq

/-- A failure yields nothing. -/
theorem fail : Yields (fail : Parser α) condition := by
  rintro _ _ _ ⟨⟩

/-- A repetition yields what its steps yield. -/
theorem iterate {step : σ → Parser (Step σ)} {start : σ} {condition : σ → Prop}
    (h : ∀ state, condition state → Yields (step state) fun next => condition next.state)
    (hstart : condition start) : Yields (iterate step start) condition := by
  refine bind_any fun count => ?_
  induction count + 1 generalizing start with
  | zero => exact pure hstart
  | succ count ih =>
    refine (h start hstart).bind fun next hnext => ?_
    cases next with
    | more state => exact ih hnext
    | done state => exact pure hnext

/-- A rule yields what its body yields. -/
theorem nested (rule : Rule) (h : Yields p condition) : Yields (nested rule p) condition := by
  intro before after value run
  cases ran : p (inside rule before) with
  | error failure within => rw [Parser.nested, ran] at run; cases run
  | ok a within =>
    rw [Parser.nested, ran] at run
    cases run
    exact h _ within value ran

end Yields

/-! ### The triple -/

/-- Any token. -/
abbrev AnyToken : Token → Prop :=
  fun _ => True

/-- In front of a token in question and behind the leaves in front, the parser reads on to the
leaves of its value, unless there are diagnostics afterwards. -/
structure Accounts (now : Token → Prop) (front : List Leaf) (parser : Parser α)
    (leaves : α → List Leaf) : Prop where
  /-- The parser moves forward. -/
  moves : ∀ before, Moves (fun _ => True) before (parser before)
  /-- The parser reads on to the leaves of its value. -/
  reads : ∀ before after value, before.cursor.Sound → now before.current →
    before.cursor.Read front → parser before = .ok value after → after.errors.toList = [] →
      after.cursor.Read (leaves value)

/-- Where a parser fails, the cursor is where the parser began. -/
def Returns (parser : Parser α) : Prop :=
  ∀ before after failure, parser before = .error failure after →
    after.cursor.position = before.cursor.position

namespace Accounts

variable {p q : Parser α} {f : α → Parser β} {now now' : Token → Prop} {front more : List Leaf}
  {leaves middle : α → List Leaf} {result : β → List Leaf} {kind : TokenKind} {keyword : Keyword}

/-- Less is known of the current token. -/
theorem mono (h : Accounts now front p leaves) (hnow : ∀ token, now' token → now token) :
    Accounts now' front p leaves where
  moves := h.moves
  reads before after value sound hfirst := h.reads before after value sound (hnow _ hfirst)

/-- Nothing is lost if regular names are assumed not to be reserved. -/
theorem of_unreserved (h : Accounts (fun token => now token ∧ token.Unreserved) front p leaves) :
    Accounts now front p leaves where
  moves := h.moves
  reads before after value sound first :=
    h.reads before after value sound ⟨first, sound.current⟩

/-- Another name for the same leaves. -/
theorem congr {leaves' : α → List Leaf} (h : Accounts now front p leaves)
    (same : ∀ value, leaves value = leaves' value) : Accounts now front p leaves' := by
  obtain rfl : leaves = leaves' := funext same
  exact h

/-! ### Sequences -/

/-- A value whose leaves have been read may be yielded. -/
theorem pure {value : α} (h : front = leaves value) : Accounts now front (pure value) leaves where
  moves before := .ok trivial (.refl before)
  reads := by
    rintro before _ _ _ _ read ⟨⟩ _
    exact h ▸ read

/-- The second parser goes on where the first one stopped, and something is known of its value. -/
theorem bind_of {condition : α → Prop} (hp : Accounts now front p middle)
    (yields : Yields p condition)
    (hf : ∀ value, condition value → Accounts AnyToken (middle value) (f value) result) :
    Accounts now front (p >>= f) result where
  moves before := by
    have moves : Moves condition before (p before) :=
      (hp.moves before).mono fun value after run _ => yields before after value run
    exact moves.bind fun value after hvalue => (hf value hvalue).moves after
  reads before after value sound first read run quiet := by
    obtain ⟨a, between, run, run'⟩ := bind_run_ok.mp run
    have ha := yields before between a run
    have follows := (hp.moves before).follows_ok run
    have follows' := ((hf a ha).moves between).follows_ok run'
    have read' := hp.reads before between a sound first read run (follows'.quiet quiet)
    exact (hf a ha).reads between after value (follows.sound sound) trivial read' run' quiet

/-- The second parser goes on where the first one stopped. -/
theorem bind (hp : Accounts now front p middle)
    (hf : ∀ value, Accounts AnyToken (middle value) (f value) result) :
    Accounts now front (p >>= f) result :=
  hp.bind_of (fun _ _ _ _ => trivial) fun value (_ : True) => hf value

/-- The value may be mapped. -/
theorem map {g : α → β} (h : Accounts now front p fun value => result (g value)) :
    Accounts now front (g <$> p) result := by
  rw [map_eq_pure_bind]
  exact h.bind fun _ => pure rfl

/-- A choice by a condition accounts for what its parts account for. -/
theorem ite {c : Prop} [Decidable c] (hp : c → Accounts now front p leaves)
    (hq : ¬c → Accounts now front q leaves) : Accounts now front (if c then p else q) leaves := by
  by_cases h : c
  · rw [if_pos h]
    exact hp h
  · rw [if_neg h]
    exact hq h

/-- A failure reads nothing. -/
theorem fail : Accounts now front (fail : Parser α) leaves where
  moves before := .error (.refl before) (by simp)
  reads := by rintro _ _ _ _ _ _ ⟨⟩

/-! ### Tokens -/

/-- A look at the tokens changes nothing, and something is learnt of the current token. -/
theorem look {tells : α → Token → Prop} (hp : Looks p tells)
    (hf : ∀ value, Accounts (fun token => now token ∧ tells value token) front (f value) result) :
    Accounts now front (p >>= f) result where
  moves before := (hp.moves before).bind fun value after _ => (hf value).moves after
  reads before after value sound first read run quiet := by
    obtain ⟨a, between, run, run'⟩ := bind_run_ok.mp run
    have follows := (hp.moves before).follows_ok run
    have told := (hp.moves before).value run
    have same := hp.stays before
    rw [run] at same
    have current : between.current = before.current := congrArg TokenCursor.current same
    refine (hf a).reads between after value (follows.sound sound) ?_ (same ▸ read) run' quiet
    rw [current]
    exact ⟨first, told⟩

/-- Nothing is read where something else was expected. -/
theorem failExpecting {kinds : List TokenKind} :
    Accounts now front (failExpecting kinds : Parser α) leaves :=
  look (.noteAll kinds) fun _ => fail

/-- The current token is left behind, and with it the leaves that it stands for. -/
theorem advance_bind {f : Token → Parser β} (more : Token → List Leaf)
    (hmore : ∀ token, now token → token.Leaves (more token))
    (hf : ∀ token, Accounts AnyToken (front ++ more token) (f token) result) :
    Accounts now front (advance >>= f) result where
  moves before := by
    have first : Moves (fun _ => True) before (advance before) := .ok trivial (.advance before)
    exact first.bind fun token after _ => (hf token).moves after
  reads before after value sound first read run quiet := by
    obtain ⟨token, between, run, run'⟩ := bind_run_ok.mp run
    cases run
    exact (hf before.current).reads _ after value
      ((Session.Follows.advance before).sound sound) trivial
      (read.advance sound (hmore _ first)) run' quiet

/-- A token that is no leaf is left behind. -/
theorem advance_plain {f : Token → Parser β} (plain : ∀ token, now token → token.isLeaf = false)
    (hf : ∀ token, Accounts AnyToken front (f token) result) :
    Accounts now front (advance >>= f) result :=
  advance_bind (fun _ => []) (fun token first => Token.leaves_nil (plain token first))
    fun token => by
      rw [List.append_nil]
      exact hf token

/-- A kind that is looked for is there or not. -/
theorem check_ite (found : Accounts (fun token => now token ∧ token.kind = kind) front p leaves)
    (missed : Accounts now front q leaves) :
    Accounts now front (check kind >>= fun there => if there = true then p else q) leaves :=
  look (.check kind) fun _ => ite
    (fun there => found.mono fun _ first => ⟨first.1, first.2 there⟩)
    fun _ => missed.mono fun _ first => first.1

/-- A token that may be eaten is there or not. -/
theorem eat_bind {f : Bool → Parser β} (plain : kind.isLeaf = false)
    (found : Accounts AnyToken front (f true) result)
    (missed : Accounts now front (f false) result) :
    Accounts now front (eat kind >>= f) result := by
  unfold eat
  rw [bind_assoc]
  refine look (.check kind) fun there => ?_
  cases there with
  | true =>
    refine advance_plain (fun token first => ?_) fun _ => found
    rw [Token.isLeaf, first.2 rfl, plain]
  | false => exact missed.mono fun _ first => first.1

/-- A reserved word that may be eaten is there or not. -/
theorem eatWord_bind {f : Bool → Parser β} (found : Accounts AnyToken front (f true) result)
    (missed : Accounts now front (f false) result) :
    Accounts now front (eatWord keyword >>= f) result :=
  eat_bind rfl found missed

/-- A word that is there or not makes no difference. -/
theorem eatWord_either {f : Bool → Parser β}
    (hf : ∀ there, Accounts AnyToken front (f there) result) :
    Accounts now front (eatWord keyword >>= f) result :=
  eatWord_bind (hf true) ((hf false).mono fun _ _ => trivial)

/-- A token that has to be there is left behind. -/
theorem expect_bind {q : Parser β} (plain : kind.isLeaf = false)
    (hq : Accounts AnyToken front q result) :
    Accounts now front (expect kind >>= fun _ => q) result := by
  unfold expect
  rw [bind_assoc]
  refine look (.check kind) fun there => ?_
  cases there with
  | true =>
    refine advance_plain (fun token first => ?_) fun _ => hq
    rw [Token.isLeaf, first.2 rfl, plain]
  | false => exact fail

/-- A reserved word that has to be there is left behind. -/
theorem expectWord_bind {q : Parser β} (hq : Accounts AnyToken front q result) :
    Accounts now front (expectWord keyword >>= fun _ => q) result := by
  unfold expectWord
  rw [bind_assoc]
  exact expect_bind rfl hq

/-- Behind a word there is something, or there is nothing. -/
theorem afterWord {default : α} (found : Accounts AnyToken front p leaves)
    (missed : front = leaves default) : Accounts now front (afterWord keyword default p) leaves :=
  eatWord_bind found (pure missed)

/-! ### Alternatives -/

/-- What is tried reads the same. -/
theorem speculate (h : Accounts now front p leaves) : Accounts now front (speculate p) leaves where
  moves _ := .speculate h.moves
  reads before after value sound first read run quiet := by
    cases tried : p before.trying with
    | error failure between => rw [speculate_error tried] at run; cases run
    | ok a between =>
      rw [speculate_ok tried] at run
      cases run
      exact h.reads before.trying between value sound first read tried quiet

/-- An alternative reads the same. -/
theorem alternative (h : Accounts now front p leaves) :
    Accounts now front (alternative p) leaves where
  moves _ := .alternative h.moves
  reads before after value sound first read run quiet := by
    obtain ⟨a, tried, hfirst, hrest⟩ := bind_run_ok.mp run
    cases hrest
    have follows := Session.Follows.dropNotesAhead tried
    rw [tried.cursor_dropNotesAhead]
    exact h.speculate.reads before tried value sound first read hfirst (follows.quiet quiet)

/-- The second alternative is tried where the first one began. -/
theorem firstOf (hp : Accounts now front p leaves) (restores : Returns p)
    (hq : Accounts now front q leaves) : Accounts now front (firstOf p q) leaves where
  moves _ := .firstOf hp.moves hq.moves
  reads before after value sound first read run quiet := by
    cases tried : p before.trying with
    | ok a between =>
      rw [Parser.firstOf, alternative_ok tried] at run
      exact hp.alternative.reads before after value sound first read
        (by rw [alternative_ok tried, ← run]) quiet
    | error failure between =>
      rw [Parser.firstOf, alternative_error tried] at run
      dsimp only at run
      split at run
      · cases run
      · have follows := (hp.moves before.trying).follows_error tried
        have same : between.settled.cursor = before.cursor :=
          follows.cursor_eq (restores _ _ _ tried)
        have current : between.settled.current = before.current :=
          congrArg TokenCursor.current same
        exact hq.alternative.reads between.settled after value (same ▸ sound) (current ▸ first)
          (same ▸ read) run quiet

/-- A part that may be missing is there, or nothing is read. -/
theorem optional {leaves : Option α → List Leaf}
    (hp : Accounts now front p fun value => leaves (some value)) (restores : Returns p)
    (missed : front = leaves none) : Accounts now front (optional p) leaves where
  moves _ := .optional hp.moves fun _ => trivial
  reads before after value sound first read run quiet := by
    cases tried : p before.trying with
    | ok a between =>
      rw [Parser.optional, speculate_ok tried] at run
      cases run
      exact hp.reads before.trying between a sound first read tried quiet
    | error failure between =>
      rw [Parser.optional, speculate_error tried] at run
      dsimp only at run
      split at run
      · cases run
      · cases run
        have follows := (hp.moves before.trying).follows_error tried
        have same : between.settled.cursor = before.cursor :=
          follows.cursor_eq (restores _ _ _ tried)
        rw [same, ← missed]
        exact read

/-- A failure that is survived is reported. -/
theorem orRecover {sync : List TokenKind} {ifFailed : α} (h : Accounts now front p leaves) :
    Accounts now front (orRecover p sync ifFailed) leaves where
  moves before := .orRecover (h.moves before) sync trivial
  reads before after value sound first read run quiet := by
    cases ran : p before with
    | ok a between =>
      rw [Parser.orRecover, ran] at run
      cases run
      exact h.reads before after value sound first read ran quiet
    | error failure between =>
      rw [Parser.orRecover, ran] at run
      obtain ⟨_, session, recovered, ⟨⟩⟩ := bind_run_ok.mp run
      rw [recoverFrom_run] at recovered
      split at recovered
      · cases recovered
      · dsimp only at recovered
        split at recovered
        · cases recovered
        · cases recovered
          rw [Session.errors_reporting] at quiet
          exact absurd quiet (by simp)

/-! ### Repetition -/

section

variable {step : σ → Parser (Step σ)} {held : σ → List Leaf}

/-- A bounded repetition accounts for leaves if its step does. -/
theorem repeatAtMost
    (h : ∀ state, Accounts AnyToken (held state) (step state) fun next => held next.state)
    (count : Nat) (state : σ) :
    Accounts AnyToken (held state) (repeatAtMost step count state) held := by
  induction count generalizing state with
  | zero => exact pure rfl
  | succ count ih =>
    refine (h state).bind fun next => ?_
    cases next with
    | more state => exact ih state
    | done state => exact pure rfl

/-- A repetition accounts for leaves if its step does. -/
theorem iterate {start : σ}
    (h : ∀ state, Accounts AnyToken (held state) (step state) fun next => held next.state)
    (hstart : held start = front) : Accounts now front (iterate step start) held :=
  look .remaining fun _ =>
    hstart ▸ (repeatAtMost h _ start).mono fun _ _ => trivial

end

/-- One or more items account for leaves if each of them does. -/
theorem oneOrMore {separator : TokenKind} {leaves : α → List Leaf}
    (plain : separator.isLeaf = false)
    (h : ∀ front, Accounts AnyToken front p fun value => front ++ leaves value) :
    Accounts now front (oneOrMore separator p) fun values => front ++ values.flatMap leaves := by
  have held (items : Array α) (value : α) : front ++ (items.push value).toList.flatMap leaves =
      front ++ items.toList.flatMap leaves ++ leaves value := by simp
  have step (items : Array α) : Accounts AnyToken (front ++ items.toList.flatMap leaves)
      (listStep separator p items) fun next => front ++ next.state.toList.flatMap leaves := by
    refine eat_bind plain ((h _).bind fun value => pure ?_) (pure rfl)
    exact (held items value).symm
  refine ((h front).mono fun _ _ => trivial).bind fun first => ?_
  exact (iterate step (by simp)).bind fun items => pure rfl

/-- What stands in parentheses is read between them. -/
theorem inParentheses (h : Accounts AnyToken front p leaves) :
    Accounts now front (inParentheses p) leaves :=
  expect_bind rfl (h.bind fun _ => expect_bind rfl (pure rfl))

/-! ### Rules -/

/-- A rule reads what its body reads. -/
theorem nested (rule : Rule) (h : Accounts now front p leaves) :
    Accounts now front (nested rule p) leaves where
  moves _ := .nested rule h.moves
  reads before after value sound first read run quiet := by
    cases ran : p (inside rule before) with
    | error failure within => rw [Parser.nested, ran] at run; cases run
    | ok a within =>
      rw [Parser.nested, ran] at run
      cases run
      exact h.reads (inside rule before) within value sound first read ran quiet

/-- Counting an application reads nothing. -/
theorem countRule_bind {rule : Rule} {q : Parser β} (hq : Accounts now front q result) :
    Accounts now front (countRule rule >>= fun _ => q) result := by
  have counts : Looks (countRule rule) fun _ _ => True :=
    ⟨fun _ => .countRule rule, fun before => cursor_countRule rule before⟩
  exact look counts fun _ => hq.mono fun _ first => first.1

/-- A refusal to nest deeper reads nothing. -/
theorem refuseDepth : Accounts now front (refuseDepth : Parser α) leaves where
  moves _ := .refuseDepth
  reads := by
    intro before after value _ _ _ run _
    rw [refuseDepth_run] at run
    cases run

end Accounts

end Adql
