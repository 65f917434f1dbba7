import Adql.Proofs.Grammar.Limits
import Adql.Proofs.Grammar.Recovery
import Adql.Proofs.RoundTrip.Reading
import Adql.Proofs.RoundTrip.Sources

/-!
# Parses up to the end

`Reads` is about strict parses that no limit ends.  `AppliesTo` says of tokens what any application
of a rule makes of them: under every settings with the given precedence it yields the value up to
the end, unless a limit ends the parse, and no limit does so where rules may nest deep enough and
are not counted.  What a strict parse reads to the end is yielded so (`AppliesTo.of_reads`).
`ParsesAs` is the case of expressions.
-/

namespace Adql

open Adql.Parser Adql.Grammar

namespace Session

variable {tokens : List Token} {words : List Word} {settings : Settings} {good : Word → Prop}

/-- A strict parse of tokens starts in front of their words. -/
theorem faces_ofTokens (written : tokens.map Token.word = words ++ [endWord])
    (sound : ∀ word ∈ words, good word) (strict : settings.recover = false)
    (unbounded : settings.ruleBudget = none) :
    (ofTokens tokens settings).Faces words settings.precedence good := by
  obtain ⟨before, last, rfl, hbefore, hlast⟩ := List.map_eq_append_iff.mp written
  obtain ⟨final, rfl, hfinal⟩ := List.map_eq_singleton_iff.mp hlast
  have ends : final.isEnd = true := decide_eq_true (congrArg Word.kind hfinal)
  have cursor : (ofTokens (before ++ [final]) settings).cursor = ⟨before.toArray, final, 0⟩ := by
    simp [ofTokens, TokenCursor.ofTokens, ends]
  refine ⟨?_, strict, unbounded, rfl, rfl, rfl, ?_, fun token htoken => ?_⟩
  · rw [Session.words, cursor]
    exact hbefore
  · rw [cursor]
    exact hfinal
  · rw [cursor] at htoken
    exact sound _ (hbefore ▸ List.mem_map_of_mem htoken)

variable {session : Session} {table : PrecedenceTable} {rule : Rule} {value : rule.Result}

/-! ### Rules that are applied to the end -/

/-- The rule is applied to the session and yields the value, up to the end and without diagnostics.
-/
def Yields (session : Session) (rule : Rule) (value : rule.Result) : Prop :=
  ∃ after, applyRule rule session = .ok value after ∧ after.current.kind = .eof ∧
    after.errors = #[]

/-- A limit ends the parse where the rule is applied to the session. -/
def Exhausts (session : Session) (rule : Rule) : Prop :=
  ∃ failure after, applyRule rule session = .error failure after ∧ failure.fatal = true ∧
    ∃ error ∈ after.errors.toList, error.isLimit = true

/-- What a strict parse reads to the end, it yields. -/
theorem Yields.of_reads (faces : session.Faces words table good)
    (reads : Reads (apply true session.settings.maxDepth rule) words value [] table) :
    session.Yields rule value := by
  obtain ⟨after, hrun, hafter⟩ := reads _ session faces
  exact ⟨after, hrun, hafter.current_kind, hafter.clean⟩

/-- A parse that may recover from failures yields what a strict parse yields. -/
theorem Yields.of_strict (ends : session.Ends) (h : session.strict.Yields rule value) :
    session.Yields rule value := by
  obtain ⟨after, hrun, hend, clean⟩ := h
  have runs : Parallel Eq session (applyRule rule session) (applyRule rule session.strict) :=
    (apply_parallel true session.settings.maxDepth rule).2 session ends
  rw [hrun] at runs
  generalize hresult : applyRule rule session = result at runs
  cases runs with
  | @ok _ _ after' same =>
    subst same
    exact ⟨after', hresult, hend, clean⟩

/-- A strict parse yields what a parse that may recover from failures yields without diagnostics. -/
theorem Yields.strict (ends : session.Ends) (h : session.Yields rule value) :
    session.strict.Yields rule value := by
  obtain ⟨after, hrun, hend, clean⟩ := h
  have runs : Parallel Eq session (applyRule rule session) (applyRule rule session.strict) :=
    (apply_parallel true session.settings.maxDepth rule).2 session ends
  rw [hrun] at runs
  generalize hresult : applyRule rule session.strict = result at runs
  cases runs with
  | ok same => exact ⟨after.strict, same ▸ hresult, hend, clean⟩
  | parted _ _ reported =>
    rw [show (sessionAfter (.ok value after : EStateM.Result Failure Session rule.Result)).errors = #[]
      from clean] at reported
    have none := List.prefix_nil.mp reported
    simp at none

/-- Where a parse under other limits ends without diagnostics, the parse goes the same way, unless a
limit ends it. -/
theorem Comparable.agrees_or_exhausts {other : Settings} (comparable : session.Comparable other)
    (rule : Rule) (clean : (sessionAfter (applyRule rule (session.under other))).errors = #[]) :
    (∃ value after, applyRule rule session = .ok value after ∧
        applyRule rule (session.under other) = .ok value (after.under other)) ∨
      (∃ failure after, applyRule rule session = .error failure after ∧
        applyRule rule (session.under other) = .error failure (after.under other)) ∨
      session.Exhausts rule := by
  have follows := (applyRule_moves rule (session.under other)).follows
  have runs : Limited other Eq (applyRule rule session) (applyRule rule (session.under other)) :=
    (apply_limited other true session.settings.maxDepth other.maxDepth rule).2 session comparable
  generalize hresult : applyRule rule session = result at runs
  generalize applyRule rule (session.under other) = result' at runs clean follows
  cases runs with
  | ok same => exact .inl ⟨_, _, rfl, same ▸ rfl⟩
  | error => exact .inr (.inl ⟨_, _, rfl, rfl⟩)
  | ended halted =>
    rcases follows.reason halted with earlier | exhausted
    · exact absurd (comparable.running.symm.trans earlier) nofun
    · exact absurd (by rw [clean]) exhausted.errors_ne_nil
  | stopped fatal stopped =>
    obtain ⟨common, before, ⟨limit, isLimit, errors⟩ | ⟨_, enough⟩⟩ := stopped
    · exact .inr (.inr ⟨_, _, hresult, fatal, limit, by simp [errors], isLimit⟩)
    · rw [clean, List.prefix_nil] at before
      rw [before, List.length_nil] at enough
      omega

/-- A parse yields what it would yield under other limits, unless a limit ends it. -/
theorem Yields.of_under {other : Settings} (comparable : session.Comparable other)
    (h : (session.under other).Yields rule value) :
    session.Yields rule value ∨ session.Exhausts rule := by
  obtain ⟨after', hrun, hend, clean⟩ := h
  obtain ⟨_, after, run, run'⟩ | ⟨_, _, _, run'⟩ | exhausts :=
    comparable.agrees_or_exhausts rule (by rw [hrun]; exact clean)
  · cases hrun.symm.trans run'
    exact .inl ⟨after, run, hend, clean⟩
  · cases hrun.symm.trans run'
  · exact .inr exhausts

/-- The session is parsed to the end as the expression, without diagnostics. -/
def Consumes (session : Session) (expr : Expr) : Prop :=
  ∃ after, applyRule .expression session = .ok expr after ∧ after.current.kind = .eof ∧
    after.errors = #[]

/-- A limit ends the parse of the session as an expression. -/
def RunsOut (session : Session) : Prop :=
  ∃ failure after, applyRule .expression session = .error failure after ∧ failure.fatal = true ∧
    ∃ error ∈ after.errors.toList, error.isLimit = true

end Session

/-- The rule is applied to the tokens and yields the value up to the end, whatever the settings are
besides the precedence table. -/
structure AppliesTo (rule : Rule) (table : PrecedenceTable) (tokens : List Token)
    (value : rule.Result) : Prop where
  /-- Where rules may nest deep enough and are not counted, the rule yields the value. -/
  deep : ∃ depth, ∀ settings : Settings, settings.precedence = table →
    settings.ruleBudget = none → depth ≤ settings.maxDepth →
      (Session.ofTokens tokens settings).Yields rule value
  /-- Otherwise it yields the value as well, unless a limit ends the parse. -/
  limited : ∀ settings : Settings, settings.precedence = table →
    (Session.ofTokens tokens settings).Yields rule value ∨
      (Session.ofTokens tokens settings).Exhausts rule

/-- What strict parses read to the end if rules may nest deep enough, a rule yields. -/
theorem AppliesTo.of_reads {rule : Rule} {tokens : List Token} {words : List Word}
    {table : PrecedenceTable} {value : rule.Result} {good : Word → Prop}
    (written : tokens.map Token.word = words ++ [endWord]) (sound : ∀ word ∈ words, good word)
    {depth : Nat} (reads : ∀ allowance, depth ≤ allowance →
      Reads (apply true allowance rule) words value [] table) :
    AppliesTo rule table tokens value := by
  have deep (settings : Settings) (precedence : settings.precedence = table)
      (unbounded : settings.ruleBudget = none) (enough : depth ≤ settings.maxDepth) :
      (Session.ofTokens tokens settings).Yields rule value := by
    subst precedence
    refine .of_strict (Session.ends_ofTokens tokens settings) ?_
    have faces : (Session.ofTokens tokens settings).strict.Faces words settings.precedence good :=
      Session.faces_ofTokens written sound rfl unbounded
    exact .of_reads faces (reads settings.maxDepth enough)
  refine ⟨⟨depth, deep⟩, fun settings precedence => ?_⟩
  let other := { settings with ruleBudget := none, maxDepth := depth }
  have comparable : (Session.ofTokens tokens settings).Comparable other := ⟨rfl, rfl, rfl⟩
  exact (deep other precedence rfl (Nat.le_refl depth)).of_under comparable

/-- A text that is printed as words is cut into tokens of these words, so a rule yields what strict
parses read from the words. -/
theorem AppliesTo.of_prints {rule : Rule} {text : String} {words : List Word} {value : rule.Result}
    (prints : Prints Apart text words) (spelled : ∀ word ∈ words, word.Spelled) {depth : Nat}
    (reads : ∀ allowance, depth ≤ allowance → Reads (apply true allowance rule) words value []) :
    ∃ tokens, tokenize text = .ok tokens ∧ AppliesTo rule .adql tokens value := by
  obtain ⟨tokens, cut, written⟩ := prints.tokenize spelled
  exact ⟨tokens, cut, .of_reads written (fun word hword => (spelled word hword).sound) reads⟩

/-! ### Expressions -/

/-- The tokens are parsed to the end as the expression, whatever the settings are besides the
precedence table. -/
structure ParsesAs (table : PrecedenceTable) (tokens : List Token) (expr : Expr) : Prop where
  /-- Where rules may nest deep enough and are not counted, the tokens are parsed to the end. -/
  deep : ∃ depth, ∀ settings : Settings, settings.precedence = table →
    settings.ruleBudget = none → depth ≤ settings.maxDepth →
      (Session.ofTokens tokens settings).Consumes expr
  /-- Otherwise they are parsed to the end as well, unless a limit ends the parse. -/
  limited : ∀ settings : Settings, settings.precedence = table →
    (Session.ofTokens tokens settings).Consumes expr ∨
      (Session.ofTokens tokens settings).RunsOut

/-- What the rule for expressions yields is parsed so. -/
theorem AppliesTo.parsesAs {tokens : List Token} {table : PrecedenceTable} {expr : Expr}
    (h : AppliesTo .expression table tokens expr) : ParsesAs table tokens expr :=
  ⟨h.deep, h.limited⟩

/-- What strict parses read to the end if rules may nest deep enough is parsed so. -/
theorem ParsesAs.of_reads {tokens : List Token} {words : List Word} {table : PrecedenceTable}
    {expr : Expr} {good : Word → Prop} (written : tokens.map Token.word = words ++ [endWord])
    (sound : ∀ word ∈ words, good word) {depth : Nat}
    (reads : ∀ allowance, depth ≤ allowance →
      Reads (apply true allowance .expression) words expr [] table) :
    ParsesAs table tokens expr :=
  have applies : AppliesTo .expression table tokens expr := .of_reads written sound reads
  applies.parsesAs

/-- Tokens are parsed to the end as one expression only. -/
theorem ParsesAs.unique {tokens : List Token} {table : PrecedenceTable} {first second : Expr}
    (h : ParsesAs table tokens first) (h' : ParsesAs table tokens second) : first = second := by
  obtain ⟨depth, deep⟩ := h.deep
  obtain ⟨depth', deep'⟩ := h'.deep
  let settings : Settings :=
    { precedence := table, ruleBudget := none, maxDepth := max depth depth' }
  obtain ⟨after, hrun, _⟩ := deep settings rfl rfl (Nat.le_max_left depth depth')
  obtain ⟨after', hrun', _⟩ := deep' settings rfl rfl (Nat.le_max_right depth depth')
  rw [hrun] at hrun'
  cases hrun'
  rfl

end Adql
