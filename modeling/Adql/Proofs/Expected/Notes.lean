import Adql.Proofs.Grammar.Progress

/-!
# Notes

What a session knows of the kinds that were looked for in vain, as a function of the position: the
notes are about one position only, and everywhere else nothing is known.  A list of kinds that is
noted at the cursor joins what was noted there, unless there are notes behind the cursor already.
-/

namespace Adql

open Adql.Parser

namespace Session

/-- The kinds that were noted at a position. -/
def notedAt (session : Session) (position : Nat) : KindSet :=
  match session.furthest with
  | some furthest => if furthest.position = position then furthest.expected else .empty
  | none => .empty

/-- Without notes, nothing is noted anywhere. -/
theorem notedAt_of_none {session : Session} (none : session.furthest = none) (position : Nat) :
    session.notedAt position = .empty := by
  rw [notedAt, none]

/-- What is noted at the position of the notes. -/
theorem notedAt_of_some {session : Session} {furthest : Furthest}
    (some : session.furthest = some furthest) :
    session.notedAt furthest.position = furthest.expected := by
  rw [notedAt, some]
  exact if_pos rfl

/-- Nothing is noted but at the position of the notes. -/
theorem notedAt_of_ne {session : Session} {furthest : Furthest} {position : Nat}
    (some : session.furthest = some furthest) (other : furthest.position ≠ position) :
    session.notedAt position = .empty := by
  rw [notedAt, some]
  exact if_neg other

/-- A kind that was noted comes from the notes. -/
theorem exists_of_mem_notedAt {session : Session} {position : Nat} {kind : TokenKind}
    (noted : kind ∈ session.notedAt position) :
    ∃ furthest, session.furthest = some furthest ∧ furthest.position = position ∧
      kind ∈ furthest.expected := by
  cases notes : session.furthest with
  | none => exact absurd (notedAt_of_none notes position ▸ noted) (KindSet.not_mem_empty kind)
  | some furthest =>
    by_cases here : furthest.position = position
    · subst here
      exact ⟨furthest, rfl, rfl, notedAt_of_some notes ▸ noted⟩
    · exact absurd (notedAt_of_ne notes here ▸ noted) (KindSet.not_mem_empty kind)

/-- The notes are behind the cursor. -/
def NotesAhead (session : Session) : Prop :=
  ∃ furthest, session.furthest = some furthest ∧ session.cursor.position < furthest.position

variable {session : Session}

/-- Notes behind the cursor stay as they are. -/
theorem noting_of_ahead (ahead : session.NotesAhead) (kind : TokenKind) :
    session.noting kind = session := by
  obtain ⟨furthest, notes, behind⟩ := ahead
  unfold noting
  rw [notes]
  exact if_pos behind

/-- Notes behind the cursor stay as they are when several kinds are noted. -/
theorem foldl_noting_of_ahead (ahead : session.NotesAhead) (kinds : List TokenKind) :
    kinds.foldl noting session = session := by
  induction kinds with
  | nil => rfl
  | cons kind kinds ih => rw [List.foldl_cons, noting_of_ahead ahead, ih]

/-- Where there are no notes behind the cursor, a kind joins what was noted at the cursor. -/
theorem exists_noting (ahead : ¬session.NotesAhead) (kind : TokenKind) :
    ∃ furthest, session.noting kind = { session with furthest := some furthest } ∧
      furthest.position = session.cursor.position ∧
      ∀ other, other ∈ furthest.expected ↔
        other = kind ∨ other ∈ session.notedAt session.cursor.position := by
  have fresh (none : session.notedAt session.cursor.position = .empty) (other : TokenKind) :
      other ∈ KindSet.singleton kind ↔
        other = kind ∨ other ∈ session.notedAt session.cursor.position := by
    rw [KindSet.mem_singleton, none]
    exact (or_iff_left (KindSet.not_mem_empty other)).symm
  unfold noting
  cases notes : session.furthest with
  | none => exact ⟨_, rfl, rfl, fresh (notedAt_of_none notes _)⟩
  | some furthest =>
    have before : ¬session.cursor.position < furthest.position :=
      fun behind => ahead ⟨furthest, notes, behind⟩
    dsimp only
    rw [if_neg before]
    split
    · next here =>
      refine ⟨_, rfl, here.symm, fun other => ?_⟩
      rw [KindSet.mem_insert, here, notedAt_of_some notes]
    · next elsewhere => exact ⟨_, rfl, rfl, fresh (notedAt_of_ne notes (Ne.symm elsewhere))⟩

/-- Where there are no notes behind the cursor, kinds join what was noted at the cursor. -/
theorem exists_foldl_noting (ahead : ¬session.NotesAhead) (kind : TokenKind)
    (kinds : List TokenKind) :
    ∃ furthest, (kind :: kinds).foldl noting session = { session with furthest := some furthest } ∧
      furthest.position = session.cursor.position ∧
      ∀ other, other ∈ furthest.expected ↔
        other ∈ kind :: kinds ∨ other ∈ session.notedAt session.cursor.position := by
  induction kinds generalizing session kind with
  | nil =>
    obtain ⟨furthest, noted, here, members⟩ := exists_noting ahead kind
    exact ⟨furthest, noted, here, fun other => by rw [members, List.mem_singleton]⟩
  | cons next kinds ih =>
    obtain ⟨first, noted, here, members⟩ := exists_noting ahead kind
    have still : ¬NotesAhead { session with furthest := some first } := by
      rintro ⟨_, ⟨⟩, behind⟩
      exact absurd here (Nat.ne_of_gt behind)
    obtain ⟨furthest, rest, there, others⟩ := ih still next
    have joined : notedAt { session with furthest := some first } session.cursor.position =
        first.expected := here ▸ notedAt_of_some rfl
    refine ⟨furthest, by rw [List.foldl_cons, noted]; exact rest, there, fun other => ?_⟩
    rw [others, joined, members, List.mem_cons (a := other) (b := kind)]
    exact ⟨fun h => h.elim (.inl ∘ .inr) (·.imp_left .inl),
      fun h => h.elim (·.elim (.inr ∘ .inl) .inl) (.inr ∘ .inr)⟩

end Session

end Adql
