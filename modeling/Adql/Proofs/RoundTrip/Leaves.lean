import Adql.Proofs.RoundTrip.Rules
import Adql.Proofs.RoundTrip.Values

/-!
# Names, numbers and types

What the grammar reads without applying a rule is kept: names, qualified names, lists of names,
numbers of rows, and data types.
-/

namespace Adql

open Adql.Parser Adql.Grammar

/-! ### Names -/

/-- A word for a name is read as the name. -/
theorem reads_identifier {word : Word} {name : Identifier} {table : PrecedenceTable}
    (h : word.token.identifier? = some name) (behind : List Word) :
    Reads identifier (word :: behind) name behind table := by
  obtain ⟨kind, lexeme⟩ := word
  unfold Token.identifier? at h
  split at h
  · next hkind =>
    cases h
    have there : firstKind (⟨kind, lexeme⟩ :: behind) = .identifier := hkind
    refine (Reads.check_true there).bind (Reads.advance_bind fun token same => ?_)
    obtain rfl : token.lexeme = lexeme := congrArg Word.lexeme same
    exact .pure _ _
  · next hkind =>
    cases h
    have regular : firstKind (⟨kind, lexeme⟩ :: behind) ≠ .identifier := by
      rw [firstKind_cons, show kind = .delimitedIdentifier from hkind]
      nofun
    have there : firstKind (⟨kind, lexeme⟩ :: behind) = .delimitedIdentifier := hkind
    refine (Reads.check_false regular).bind ((Reads.check_true there).bind ?_)
    refine Reads.advance_bind fun token same => ?_
    obtain rfl : token.lexeme = lexeme := congrArg Word.lexeme same
    exact .pure _ _
  · cases h

/-- A word for a name is a word of one of the two kinds of names. -/
theorem isIdentifier_of_identifier? {word : Word} {name : Identifier}
    (h : word.token.identifier? = some name) : word.kind.isIdentifier = true := by
  unfold Token.identifier? at h
  split at h
  · next hkind => rw [show word.kind = .identifier from hkind]; rfl
  · next hkind => rw [show word.kind = .delimitedIdentifier from hkind]; rfl
  · cases h

/-- Two words for one name name the same geometry function. -/
theorem geometryFunction?_of_identifier? {word word' : Word} {name : Identifier}
    (h : word.token.identifier? = some name) (h' : word'.token.identifier? = some name) :
    word'.token.geometryFunction? = word.token.geometryFunction? := by
  obtain ⟨kind, lexeme⟩ := word
  obtain ⟨kind', lexeme'⟩ := word'
  unfold Token.identifier? at h h'
  split at h
  · next hkind =>
    cases h
    split at h'
    · next hkind' =>
      cases h'
      rw [show kind = .identifier from hkind, show kind' = .identifier from hkind']
    · cases h'
    · cases h'
  · next hkind =>
    cases h
    split at h'
    · cases h'
    · next hkind' =>
      cases hkind
      cases hkind'
      rfl
    · cases h'
  · cases h

/-- No parenthesis is a name. -/
theorem ne_leftParen_of_isIdentifier {kind : TokenKind} (h : kind.isIdentifier = true) :
    kind ≠ .leftParen := by
  rintro rfl
  cases h

/-- A name is read from one word, which stands for the name. -/
theorem identifier_ensures (words : List Word) :
    Ensures identifier words fun name rest => ∃ word, words = word :: rest ∧ word.Sound ∧
      word.token.identifier? = some name := by
  refine .check_ite nofun (fun word rest split hkind => ?_) fun _ => ?_
  · subst split
    refine .advance_bind fun token same sound => .pure ⟨word, rfl, sound, ?_⟩
    rw [Token.identifier?, show word.token.kind = .identifier from hkind, ← same]
    rfl
  · refine .check_ite nofun (fun word rest split hkind => ?_) fun _ => .fail
    subst split
    refine .advance_bind fun token same sound => .pure ⟨word, rfl, sound, ?_⟩
    rw [Token.identifier?, show word.token.kind = .delimitedIdentifier from hkind, ← same]
    rfl

/-- A name is read from one word, and kept. -/
theorem identifier_kept (words : List Word) :
    Ensures identifier words fun name rest =>
      Kept identifier [name.word] (fun _ => True) words name rest ∧
        ∃ word, words = word :: rest ∧ word.kind.isIdentifier = true ∧
          name.word.kind.isIdentifier = true ∧
          name.word.token.geometryFunction? = word.token.geometryFunction? := by
  refine (identifier_ensures words).mono fun name rest ⟨word, split, sound, stands⟩ => ?_
  subst split
  obtain ⟨spelled, again⟩ := sound.name name stands
  have source := isIdentifier_of_identifier? stands
  have written := isIdentifier_of_identifier? again
  refine ⟨⟨fun word hword => ?_, ?_, fun behind _ => reads_identifier again behind⟩,
    word, rfl, source, written, geometryFunction?_of_identifier? stands again⟩
  · rw [List.mem_singleton.mp hword]
    exact spelled
  · simp [ne_leftParen_of_isIdentifier source, ne_leftParen_of_isIdentifier written]

/-- The words of a qualified name have points between the names. -/
theorem separated_dot {parts : List Identifier} {name : Identifier}
    (h : parts.getLast? = some name) :
    separated .dot (parts.map fun part => [part.word]) =
      QualifiedName.words ⟨parts.dropLast, name⟩ := by
  induction parts with
  | nil => cases h
  | cons first others ih =>
    cases others with
    | nil =>
      cases h
      rfl
    | cons second others =>
      rw [List.getLast?_cons_cons] at h
      have rest := ih h
      rw [List.map_cons] at rest
      rw [List.map_cons, List.map_cons, separated, rest]
      rfl

/-- A qualified name is kept; no point may follow it. -/
theorem qualifiedName_kept (words : List Word) :
    Ensures qualifiedName words fun name rest =>
      Kept qualifiedName name.words (fun behind => firstKind behind ≠ .dot) words name rest ∧
        SameStart words name.words := by
  have names := Ensures.oneOrMore_kept .dot (fun name : Identifier => [name.word]) words nofun rfl
    (fun _ => trivial) moving.rel_identifier identifier_kept
  refine names.bind fun parts rest ⟨first, others, middle, split, starts, alone, kept⟩ => ?_
  obtain ⟨word, rfl, source, written, function⟩ := starts
  cases hlast : parts.getLast? with
  | none => exact .fail
  | some name =>
    have same := separated_dot hlast
    rw [same] at kept
    refine .pure ⟨(kept.follow fun _ h => ⟨trivial, h⟩).of_reads fun behind _ hread => ?_, ?_⟩
    · refine hread.bind ?_
      rw [hlast]
      exact .pure _ _
    · rw [← same, split]
      cases others with
      | nil =>
        refine .name source written function ⟨fun h => absurd h (alone.mp rfl), nofun⟩
      | cons second others =>
        have point : firstKind middle = .dot :=
          Decidable.byContradiction fun h => nomatch alone.mpr h
        exact .name source written function ⟨fun _ => rfl, fun _ => point⟩

/-- Names in parentheses are kept. -/
theorem nameList_kept (words : List Word) :
    Ensures nameList words fun names rest => names ≠ [] ∧
      Kept nameList (enclosed (separated .comma (names.map fun name => [name.word])))
        (fun _ => True) words names rest := by
  refine .expect_bind nofun fun word inner split opening => ?_
  subst split
  have names := Ensures.oneOrMore_kept .comma (fun name : Identifier => [name.word]) inner nofun rfl
    (fun _ => trivial) moving.rel_identifier identifier_kept
  refine names.bind fun names middle ⟨first, others, _, split, _, _, kept⟩ => ?_
  refine .expect_bind nofun fun word rest closing hkind => .pure ⟨by simp [split], ?_⟩
  subst closing
  refine .expect ?_ opening rfl
  refine kept.bind (.expect (.pure names rest) hkind rfl) fun behind _ => ⟨trivial, nofun⟩

/-- A name that is given with or without the word for it is written with the word. -/
theorem aliasName_kept (words : List Word) :
    Ensures aliasName words fun name rest =>
      Kept aliasName [Keyword.AS.word, name.word] (fun _ => True) words name rest := by
  have written {name : Identifier} {words rest : List Word}
      (h : Kept identifier [name.word] (fun _ => True) words name rest) :
      Kept aliasName [Keyword.AS.word, name.word] (fun _ => True) words name rest :=
    h.insert nofun rfl fun behind _ hread => (Reads.eat_true rfl).bind hread
  refine .eatWord_bind (fun word rest split hkind => ?_) fun _ => ?_
  · subst split
    refine (identifier_kept rest).mono fun name rest ⟨kept, _⟩ => ?_
    exact (written kept).skip (by rw [hkind]; nofun)
  · exact (identifier_kept words).mono fun name rest ⟨kept, _⟩ => written kept

/-! ### Numbers -/

/-- A word for a number of rows is read as the number. -/
theorem reads_rowCount {word : Word} {count : UInt64} (hkind : word.kind = .integer)
    (h : word.token.rowCount? = some count) (behind : List Word) :
    Reads rowCount (word :: behind) count behind := by
  have there : firstKind (word :: behind) = .integer := hkind
  refine (Reads.check_true there).bind (Reads.current_bind fun token same => ?_)
  rw [Token.rowCount?_of_word (show token.word = word.token.word from same), h]
  exact Reads.advance_bind fun _ _ => .pure _ _

/-- A number of rows is kept. -/
theorem rowCount_kept (words : List Word) :
    Ensures rowCount words fun count rest =>
      Kept rowCount [countWord count.toNat] (fun _ => True) words count rest := by
  refine .check_ite nofun (fun word rest split hkind => ?_) fun _ => .fail
  subst split
  refine .current_bind fun token _ hword => ?_
  cases hcount : token.rowCount? with
  | none => exact .fail
  | some count =>
    obtain ⟨spelled, again⟩ := rowCount_sound hcount
    refine .advance_bind fun _ _ _ => .pure ⟨fun other hother => ?_, ?_, fun behind _ => ?_⟩
    · rw [List.mem_singleton.mp hother]
      exact spelled
    · simp [hkind, countWord]
    · exact reads_rowCount rfl again behind

/-! ### Data types -/

/-- The length of a type is kept; behind a type without length, no parenthesis may follow. -/
theorem typeLength_kept (words : List Word) :
    Ensures typeLength words fun length rest =>
      Kept typeLength ((length.map fun length => enclosed [countWord length.toNat]).getD [])
        (fun behind => firstKind behind ≠ .leftParen) words length rest := by
  refine .eat_bind nofun (fun word inner split opening => ?_) fun _ => .pure ?_
  · subst split
    refine .check_ite nofun (fun word rest split hkind => ?_) fun _ => .fail
    subst split
    refine .current_bind fun token _ _ => ?_
    cases hlength : token.length? with
    | none => exact .failExpecting
    | some length =>
      obtain ⟨spelled, again⟩ := length_sound hlength
      refine .advance_bind fun _ _ _ => .expect_bind nofun fun word' rest' split closing => ?_
      subst split
      refine .pure (.eat ?_ opening rfl)
      have tail : Kept (expect .rightParen >>= fun _ => pure (some length))
          [TokenKind.rightParen.word] (fun behind => firstKind behind ≠ .leftParen)
          (word' :: rest') (some length) rest' :=
        .expect (.pure _ _) closing rfl
      refine tail.cons hkind spelled fun behind _ hread => ?_
      refine (Reads.check_true rfl).bind (Reads.current_bind fun token same => ?_)
      rw [Token.length?_of_word (show token.word = (countWord length.toNat).token.word from same),
        again]
      exact Reads.advance_bind fun _ _ => hread
  · exact .eat_missed (.pure _ _) fun behind h => h

/-- The name of a geometry function is no reserved word. -/
theorem Geometry.isName_spelling (function : Geometry) : IsName function.spelling := by
  have names : ∀ function ∈ all, IsName function.spelling := by decide +kernel
  exact names function function.mem_all

/-- A type that is written as a name is denoted by the name. -/
theorem simpleType?_name {type : DataType} {name : String}
    (h : type.words = [⟨.identifier, name⟩]) :
    simpleType? (Word.token ⟨.identifier, name⟩) = some type := by
  have point : "POINT".toUpper = "POINT" := Geometry.toUpper_spelling .point
  have circle : "CIRCLE".toUpper = "CIRCLE" := Geometry.toUpper_spelling .circle
  have polygon : "POLYGON".toUpper = "POLYGON" := Geometry.toUpper_spelling .polygon
  cases type with
  | point | circle | polygon =>
    cases h
    simp [simpleType?, Word.token, point, circle, polygon]
  | char length | varchar length => cases length <;> cases h
  | _ => cases h

/-- A type that a single word names is written as a single word of the same kind. -/
theorem simpleType?_sound {token : Token} {type : DataType} (h : simpleType? token = some type) :
    ∃ word : Word, type.words = [word] ∧ word.Spelled ∧ word.kind = token.kind ∧
      simpleType? word.token = some type := by
  unfold simpleType? at h
  split at h
  · next hkind => cases h; exact ⟨_, rfl, rfl, hkind.symm, rfl⟩
  · next hkind => cases h; exact ⟨_, rfl, rfl, hkind.symm, rfl⟩
  · next hkind => cases h; exact ⟨_, rfl, rfl, hkind.symm, rfl⟩
  · next hkind => cases h; exact ⟨_, rfl, rfl, hkind.symm, rfl⟩
  · next hkind => cases h; exact ⟨_, rfl, rfl, hkind.symm, rfl⟩
  · next hkind =>
    split at h
    · cases h
      exact ⟨_, rfl, Geometry.isName_spelling .point, hkind.symm, simpleType?_name rfl⟩
    · cases h
      exact ⟨_, rfl, Geometry.isName_spelling .circle, hkind.symm, simpleType?_name rfl⟩
    · cases h
      exact ⟨_, rfl, Geometry.isName_spelling .polygon, hkind.symm, simpleType?_name rfl⟩
    · cases h
  · cases h

/-- The word of a type is read as the type. -/
theorem reads_simpleType {word : Word} {type : DataType}
    (h : simpleType? word.token = some type) (behind : List Word) :
    Reads dataType (word :: behind) type behind := by
  refine .current_bind fun token same => ?_
  rw [(Token.Alike.of_word (show token.word = word.token.word from same)).simpleType, h]
  have hkind : word.token.kind = token.kind := (congrArg Word.kind same).symm
  have other {keyword : Keyword} (hsplit : token.kind = .keyword keyword)
      (none : simpleType? { word.token with kind := .keyword keyword } = none) : False := by
    rw [← hsplit, ← hkind, h] at none
    cases none
  split
  · next hsplit => exact (other hsplit rfl).elim
  · next hsplit => exact (other hsplit rfl).elim
  · next hsplit => exact (other hsplit rfl).elim
  · exact Reads.advance_bind fun _ _ => .pure _ _

/-- A type with a length, which is read behind its word, is kept. -/
theorem withLength_kept {keyword : Keyword} {make : Option UInt32 → DataType} {word : Word}
    {rest : List Word} (same : ∀ length, (make length).words = lengthWords keyword length)
    (hkind : word.kind = .keyword keyword)
    (hread : ∀ words type behind,
      Reads (do pure (make (← typeLength))) words type behind →
      Reads dataType (keyword.word :: words) type behind) :
    Ensures (do pure (make (← typeLength))) rest fun type behind =>
      Kept dataType type.words (fun behind => firstKind behind ≠ .leftParen) (word :: rest) type
        behind := by
  refine (typeLength_kept rest).bind fun length behind kept => .pure ?_
  have split : (make length).words = keyword.word ::
      (length.map fun length => enclosed [countWord length.toNat]).getD [] := by
    rw [same]
    cases length <;> rfl
  rw [split]
  exact (Kept.bind_pure kept).cons hkind keyword.spelled_word fun behind _ => hread _ _ behind

/-- A data type is kept; no parenthesis may follow it. -/
theorem dataType_kept (words : List Word) :
    Ensures dataType words fun type rest =>
      Kept dataType type.words (fun behind => firstKind behind ≠ .leftParen) words type rest := by
  refine .current_bind fun token first _ => ?_
  have there {kind : TokenKind} (hkind : token.kind = kind) (h : kind ≠ .eof) :
      ∃ word rest, words = word :: rest ∧ word.kind = kind :=
    exists_cons_of_firstKind h (first ▸ hkind)
  split
  · next hkind =>
    obtain ⟨word, rest, rfl, same⟩ := there hkind nofun
    refine .advance_bind fun _ _ _ => .expectWord_bind fun word' rest' split same' => .pure ?_
    subst split
    have tail : Kept (expectWord .PRECISION >>= fun _ => pure DataType.double)
        [Keyword.PRECISION.word] (fun behind => firstKind behind ≠ .leftParen) (word' :: rest')
        .double rest' :=
      .expectWord (.pure _ _) same'
    refine tail.cons same Keyword.DOUBLE.spelled_word fun behind _ hread => ?_
    refine .current_bind fun token same => ?_
    obtain ⟨_, _, _⟩ := token
    cases same
    exact Reads.advance_bind fun _ _ => hread
  · next hkind =>
    obtain ⟨word, rest, rfl, same⟩ := there hkind nofun
    refine .advance_bind fun _ _ _ => withLength_kept (fun _ => rfl) same fun _ _ _ hread => ?_
    refine .current_bind fun token same => ?_
    obtain ⟨_, _, _⟩ := token
    cases same
    exact Reads.advance_bind fun _ _ => hread
  · next hkind =>
    obtain ⟨word, rest, rfl, same⟩ := there hkind nofun
    refine .advance_bind fun _ _ _ => withLength_kept (fun _ => rfl) same fun _ _ _ hread => ?_
    refine .current_bind fun token same => ?_
    obtain ⟨_, _, _⟩ := token
    cases same
    exact Reads.advance_bind fun _ _ => hread
  · cases htype : simpleType? token with
    | none => exact .failExpecting
    | some type =>
      obtain ⟨word', hwords, spelled, hkind, again⟩ := simpleType?_sound htype
      have nonempty : token.kind ≠ .eof := by
        intro h
        simp [simpleType?, h] at htype
      have noParen : token.kind ≠ .leftParen := by
        intro h
        simp [simpleType?, h] at htype
      obtain ⟨word, rest, rfl, same⟩ := there rfl nonempty
      refine .advance_bind fun _ _ _ => .pure ?_
      rw [hwords]
      refine ⟨fun other hother => ?_, ?_, fun behind _ => reads_simpleType again behind⟩
      · rw [List.mem_singleton.mp hother]
        exact spelled
      · simp [same, hkind, noParen]

end Adql
