import Adql.Proofs.Expected.Ahead

/-!
# Numbers and data types

What is looked for where a number or a data type has to stand really helps.  A number may be too large
for its place; then another number is looked for, and a smaller one helps (`Ready.number`).
-/

namespace Adql

open Adql.Parser Adql.Grammar

variable {α β : Type}

/-! ### Numbers -/

/-- Goes on behind a number that has a value, and refuses any other one. -/
def withNumber (next : β → Parser α) (refuse : Parser α) : Option β → Parser α
  | some value => do
    let _ ← advance
    next value
  | none => refuse

/-- A number of rows is a number that is not too large. -/
theorem rowCount_eq :
    rowCount = (do
      if ← check .integer then
        withNumber pure Parser.fail (← current).rowCount?
      else Parser.fail) := by
  refine bind_congr fun there => congrArg (ite _ · _) (bind_congr fun token => ?_)
  cases token.rowCount? with
  | some count => rfl
  | none => rfl

/-- A length in parentheses is a number that is not too large. -/
theorem typeLength_eq :
    typeLength = (do
      if ← eat .leftParen then
        if ← check .integer then
          withNumber (fun length => expect .rightParen >>= fun _ => pure (some length))
            (Parser.failExpecting [.integer]) (← current).length?
        else Parser.fail
      else pure none) := by
  refine bind_congr fun opened => congrArg (ite _ · _) (bind_congr fun there =>
    congrArg (ite _ · _) (bind_congr fun token => ?_))
  cases token.length? with
  | some length => rfl
  | none => rfl

section

variable {F G : Set TokenKind} {size : Nat}

/-- A number, if it is not too large; a larger one is refused. -/
theorem Ready.number {read? : Token → Option β} {next : β → Parser α} {refuse : Parser α}
    (told : ∀ first second : Token, first.word = second.word → read? first = read? second)
    {word : Word} {value : β} (number : word.kind = .integer) (spelled : word.Spelled)
    (reads : read? word.token = some value)
    (ready : ∀ value, Ready (size - 1) G F (next value)) (beyond : Beyond refuse)
    (takes : Takes .integer refuse)
    (refused : ∀ word front, Honest F refuse (word :: front) none) :
    Ready size {.integer} F (do
      if ← check .integer then
        withNumber next refuse (read? (← current))
      else Parser.fail) := by
  have noEnd : TokenKind.integer ≠ .eof := nofun
  have behind : ∀ value? : Option β, Beyond (withNumber next refuse value?)
    | some value => Beyond.advance.bind fun _ => (ready value).beyond
    | none => beyond
  have takes' : ∀ value? : Option β, Takes .integer (withNumber next refuse value?)
    | some value => .advance_bind noEnd fun _ => (ready value).beyond
    | none => takes
  have same {word : Word} (token : Token) (h : token.word = word) : read? token = read? word.token :=
    told _ _ (h.trans word.word_token.symm)
  have offers : Offers F (current >>= fun token => withNumber next refuse (read? token)) [] .integer := by
    obtain ⟨words, a, spelled', closing⟩ := (ready value).closes
    refine ⟨word, words, a, number, List.forall_mem_cons.mpr ⟨spelled, spelled'⟩,
      fun behind follows => .current_bind fun token h => ?_⟩
    rw [told token word.token (h.trans word.word_token.symm), reads]
    exact .advance_bind fun _ _ => (closing behind follows).2
  refine ⟨.check_bind (fun word front _ few => ?_) (.bind (.of_same fun _ => rfl) fun _ => behind _)
    offers (.peek_bind (fun _ => ⟨_, rfl⟩) fun _ => takes' _) .fail, .check_found offers rfl⟩
  cases result : read? word.token with
  | some value =>
    obtain ⟨outcome, honest⟩ := (ready value).honest front (by omega)
    refine ⟨outcome, .current_bind (fun token h => ?_) honest.advance_bind⟩
    rw [same token h, result]
    rfl
  | none =>
    refine ⟨none, .current_bind (fun token h => ?_) (refused word front)⟩
    rw [same token h, result]
    rfl

/-- The number one is read as a machine integer. -/
theorem integer?_one : (countWord 1).token.integer? = some 1 :=
  integer?_countWord (show 0 ≤ (1 : Int64).toInt by decide)

/-- A number of rows. -/
theorem ready_rowCount : Ready size {.integer} F rowCount := by
  have one : Token.rowCount? (countWord 1).token = some 1 := by rw [Token.rowCount?, integer?_one]; rfl
  rw [rowCount_eq]
  exact .number (fun _ _ => Token.rowCount?_of_word) rfl spelled_one one
    (fun value => .pure (Set.subset_univ F) value) .fail (.fail _) fun word front => .fail _

/-- The length of a type. -/
theorem helpful_typeLength : Helpful size F typeLength := by
  have one : Token.length? (countWord 1).token = some 1 := by rw [Token.length?, integer?_one]; rfl
  have refuses : Beyond (Parser.failExpecting [.integer] : Parser (Option UInt32)) :=
    (Beyond.noteAll _).bind fun _ => .fail
  have closing (length : UInt32) : Ready (size - 1 - 1) {.rightParen} F
      (expect .rightParen >>= fun _ => pure (some length)) :=
    .expect_bind rfl (.pure (Set.subset_univ F) _)
  rw [typeLength_eq]
  exact .eat_bind rfl (.number (fun _ _ => Token.length?_of_word) rfl spelled_one one closing refuses
    (.failExpecting _) fun word front => .failExpecting _) (.pure none)

end

/-! ### Data types -/

/-- A data type that is told by the kind of its first token, or by the token alone. -/
def typeOf (type? : Option DataType) : TokenKind → Parser DataType
  | .keyword .DOUBLE => do
    let _ ← advance
    expectWord .PRECISION
    pure .double
  | .keyword .CHAR => do
    let _ ← advance
    pure (.char (← typeLength))
  | .keyword .VARCHAR => do
    let _ ← advance
    pure (.varchar (← typeLength))
  | _ =>
    match type? with
    | some type => do
      let _ ← advance
      pure type
    | none => failExpecting dataTypeStart

/-- A data type is told by its first token. -/
theorem dataType_eq :
    dataType = (do
      let token ← current
      typeOf (simpleType? token) token.kind) :=
  rfl

/-- A token that names a type is of a kind that starts a type. -/
theorem mem_dataTypeStart_of_simpleType? {token : Token} {type : DataType}
    (h : simpleType? token = some type) : token.kind ∈ dataTypeStart := by
  unfold simpleType? at h
  split at h
  all_goals first | (next kind => exact kind ▸ by decide) | cases h

/-- Any kind that starts a type can be followed by the rest of a type. -/
theorem offers_dataType {kind : TokenKind} (start : kind ∈ dataTypeStart) :
    Offers {.rightParen} dataType [] kind := by
  have simple {word : Word} {type : DataType} (h : simpleType? word.token = some type)
      (spelled : word.Spelled) : Offers {.rightParen} dataType [] word.kind :=
    ⟨word, [], type, rfl, List.forall_mem_singleton.mpr spelled, fun behind _ => reads_simpleType h behind⟩
  have told {keyword : Keyword} {more : List Word} (spelled : ∀ word ∈ more, word.Spelled) (type : DataType)
      (reads : ∀ behind, firstKind behind ∈ ({.rightParen} : Set TokenKind) → ∀ type?,
        Reads (typeOf type? (.keyword keyword)) (keyword.word :: (more ++ behind)) type behind) :
      Offers {.rightParen} dataType [] (.keyword keyword) := by
    refine ⟨keyword.word, more, type, rfl, List.forall_mem_cons.mpr ⟨rfl, spelled⟩,
      fun behind follows => ?_⟩
    rw [dataType_eq]
    refine .current_bind fun token same => ?_
    rw [show token.kind = .keyword keyword from congrArg Word.kind same]
    exact reads behind follows _
  have noLength {behind : List Word} (follows : firstKind behind ∈ ({.rightParen} : Set TokenKind)) :
      Reads typeLength behind none behind := by
    have noParen : firstKind behind ≠ .leftParen := fun same => nomatch same.symm.trans follows
    exact (Reads.eat_false noParen).bind (.pure _ _)
  simp only [dataTypeStart, List.mem_cons, List.not_mem_nil, or_false] at start
  rcases start with rfl | rfl | rfl | rfl | rfl | rfl | rfl | rfl | rfl
  · exact simple (show simpleType? Keyword.SMALLINT.word.token = _ from rfl) rfl
  · exact simple (show simpleType? Keyword.INTEGER.word.token = _ from rfl) rfl
  · exact simple (show simpleType? Keyword.BIGINT.word.token = _ from rfl) rfl
  · exact simple (show simpleType? Keyword.REAL.word.token = _ from rfl) rfl
  · have spelled : ∀ word ∈ [Keyword.PRECISION.word], word.Spelled := List.forall_mem_singleton.mpr rfl
    refine told spelled .double fun behind _ type? => .advance_bind fun _ _ => ?_
    exact (Reads.expectWord .PRECISION behind).bind (.pure _ _)
  · refine told (List.forall_mem_nil _) (.char none) fun behind follows type? => .advance_bind fun _ _ => ?_
    exact (noLength follows).bind (.pure _ _)
  · refine told (List.forall_mem_nil _) (.varchar none) fun behind follows type? => .advance_bind fun _ _ => ?_
    exact (noLength follows).bind (.pure _ _)
  · exact simple (show simpleType? Keyword.TIMESTAMP.word.token = _ from rfl) rfl
  · exact simple (simpleType?_name (show DataType.point.words = _ from rfl))
      (Geometry.isName_spelling .point)

/-- In front of any other kind, there is no data type. -/
theorem stalls_typeOf {kind : TokenKind} {words : List Word} (others : kind ∉ dataTypeStart) :
    Stalls (typeOf none kind) words := by
  unfold typeOf
  split
  · exact absurd (by decide) others
  · exact absurd (by decide) others
  · exact absurd (by decide) others
  · exact .failExpecting _ _

/-- Behind its first token, a data type is read to its end. -/
theorem honest_typeOf (type? : Option DataType) (kind : TokenKind) (word : Word)
    (front : List Word) :
    ∃ outcome, Honest {.rightParen} (typeOf type? kind) (word :: front) outcome := by
  have behind {p : Parser DataType} (h : Helpful (front.length + 1) {.rightParen} p) :
      ∃ outcome, Honest {.rightParen} (advance >>= fun _ => p) (word :: front) outcome :=
    (h.honest front (Nat.lt_succ_self _)).imp fun _ honest => honest.advance_bind
  have sized (make : Option UInt32 → DataType) : Helpful (front.length + 1) {.rightParen}
      (typeLength >>= fun length => pure (make length)) :=
    helpful_typeLength.bind fun _ => .pure subset_rfl _
  unfold typeOf
  split
  · exact behind (.expectWord_bind (.pure subset_rfl _))
  · exact behind (sized .char)
  · exact behind (sized .varchar)
  · split
    · exact behind (.pure _)
    · exact ⟨none, .failExpecting dataTypeStart⟩

/-- At the end of the front, a data type takes a word that starts one, and expects one before any
other word. -/
theorem gets_typeOf {session : Session} {behind : List Word} {position : Nat}
    (splits : session.Splits [] behind position) {type? : Option DataType} {kind : TokenKind}
    (there : firstKind behind = kind) (names : type?.isSome = true → kind ∈ dataTypeStart) :
    Gets (· ∈ dataTypeStart) none behind position session (typeOf type? kind session) := by
  have noEnd : ∀ kind ∈ dataTypeStart, kind ≠ .eof := by decide
  have takes {q : Parser DataType} (start : kind ∈ dataTypeStart) (beyond : Beyond q) :
      Gets (· ∈ dataTypeStart) none behind position session ((advance >>= fun _ => q) session) :=
    (Takes.advance_bind (noEnd kind start) (fun _ => beyond) session behind position splits
      there).of_takes start
  have length (make : Option UInt32 → DataType) :
      Beyond (typeLength >>= fun length => pure (make length)) := by
    have empty : Helpful 0 ∅ typeLength := helpful_typeLength
    exact empty.beyond.bind fun _ => .pure _
  unfold typeOf
  split
  · exact takes (by decide) (((Beyond.expect _).bind fun _ => .pure ()).bind fun _ => .pure _)
  · exact takes (by decide) (length _)
  · exact takes (by decide) (length _)
  · split
    · exact takes (names rfl) (.pure _)
    · exact .failExpecting (fun _ start => start) session

/-- A data type. -/
theorem helpful_dataType {size : Nat} : Helpful size {.rightParen} dataType := by
  refine ⟨beyond.rel_dataType.2, fun front _ => ?_⟩
  cases front with
  | cons word front =>
    obtain ⟨outcome, honest⟩ := honest_typeOf (simpleType? word.token) word.kind word front
    refine ⟨outcome, .current_bind (fun token same => ?_) honest⟩
    have alike : token.Alike word.token := .of_word (same.trans word.word_token.symm)
    rw [alike.kind, alike.simpleType]
    rfl
  | nil =>
    refine ⟨none, .at_end dataTypeStart nofun (fun _ => offers_dataType) ?_ ?_⟩
    · intro behind others
      refine .current_kind_bind fun token first => ?_
      have noType : simpleType? token = none := by
        by_contra some
        obtain ⟨type, found⟩ := Option.ne_none_iff_exists'.mp some
        exact others (first ▸ mem_dataTypeStart_of_simpleType? found)
      rw [noType, first]
      exact stalls_typeOf others
    · intro session behind position splits
      refine gets_typeOf splits splits.faces.current_kind.symm fun some => ?_
      obtain ⟨type, found⟩ := Option.isSome_iff_exists.mp some
      exact mem_dataTypeStart_of_simpleType? found

end Adql
