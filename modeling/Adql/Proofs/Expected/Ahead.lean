import Adql.Proofs.Expected.Helpful

/-!
# Parsers that look behind the front

Some parsers look at more than the current word, or choose by its kind among more than two ways to go on.
In front of the front, what they choose may depend on what stands behind it: `Honest.dispatch` and
`Honest.at_end` put them together from what they do in front of each kind.
-/

namespace Adql

open Adql.Parser Adql.Grammar

variable {α β : Type}

/-! ### Failing -/

/-- A failure notes the kinds that it expects. -/
theorem Gets.failExpecting {offered : TokenKind → Prop} {outcome : Option (α × List Word)}
    {behind : List Word} {position : Nat} {kinds : List TokenKind}
    (h : ∀ kind ∈ kinds, offered kind) (session : Session) :
    Gets offered outcome behind position session (failExpecting kinds session) where
  noted kind found :=
    (Session.mem_notedAt_foldl_noting found).imp_right fun noted => h kind noted.2
  passed := by rintro _ _ ⟨⟩

/-- A failure that expects one kind takes the word of that kind, which does not do. -/
theorem Takes.failExpecting (kind : TokenKind) :
    Takes kind (failExpecting [kind] : Parser α) :=
  fun session _ _ _ _ => .failExpecting (fun _ found => List.mem_singleton.mp found) session

/-- A failure takes a word that does not do. -/
theorem Takes.fail (kind : TokenKind) : Takes kind (fail : Parser α) :=
  fun _ _ _ _ _ => ⟨fun _ found => .inl found, by rintro _ _ ⟨⟩⟩

/-! ### Taking a word -/

namespace Takes

variable {p q : Parser α} {kind : TokenKind}

/-- A rule takes what its body takes. -/
theorem apply {rule : Rule} {allowance : Nat}
    (h : Takes kind (body true (apply true allowance) rule)) :
    Takes kind (Grammar.apply true (allowance + 1) rule) :=
  fun _ behind position splits there =>
    Honest.gets_apply splits fun session splits => h session behind position splits there

/-- A look at what is ahead takes nothing. -/
theorem peek_bind {peek : Parser β} {f : β → Parser α}
    (same : ∀ session, ∃ b, peek session = .ok b session) (h : ∀ b, Takes kind (f b)) :
    Takes kind (peek >>= f) := by
  intro session behind position splits there
  obtain ⟨b, run⟩ := same session
  change Gets _ _ _ _ _ (EStateM.bind peek f session)
  rw [EStateM.bind, run]
  exact h b session behind position splits there

/-- A word that has to be there. -/
theorem expect_bind (noEnd : kind ≠ .eof) (beyond : Beyond q) :
    Takes kind (expect kind >>= fun _ => q) := by
  rw [expect_bind_eq]
  exact .check_bind (.advance_bind noEnd fun _ => beyond)

end Takes

namespace Honest

variable {F : Set TokenKind} {p q : Parser α} {front : List Word} {word next : Word}
  {outcome : Option (α × List Word)}

/-! ### Noting kinds inside the front -/

/-- Kinds that are noted inside the front are not noted at its end. -/
theorem noteAll_bind (kinds : List TokenKind) (h : Honest F q (word :: front) outcome) :
    Honest F (noteAll kinds >>= fun _ => q) (word :: front) outcome :=
  of_step (fun session => kinds.foldl Session.noting session) (Nat.le_refl _)
    (fun _ _ _ faces => ⟨rfl, faces.foldl_noting kinds⟩)
    (fun session _ _ splits =>
      ⟨⟨splits.faces.foldl_noting kinds, (session.cursor_foldl_noting kinds).symm ▸ splits.ends⟩,
        fun _ => splits.noted_foldl_noting⟩) h

/-- A failure inside the front. -/
theorem failExpecting (kinds : List TokenKind) :
    Honest F (failExpecting kinds : Parser α) (word :: front) none :=
  noteAll_bind kinds (.fail _)

/-! ### What stands behind the front -/

/-- A parser that stalls in front of the front alone reads nothing there. -/
theorem none_of_stalls (h : Honest F p front outcome) (stalls : Stalls p front) : outcome = none := by
  cases outcome with
  | none => rfl
  | some result => exact absurd stalls h.reads.not_stalls

/-- A parser that stalls in front of all but some kinds offers those only, and reads nothing from the
front alone. -/
theorem of_stalls {kinds : List TokenKind} {other : TokenKind} (h : Honest F p front outcome)
    (stalls : ∀ behind, firstKind behind ∉ kinds → Stalls p (front ++ behind))
    (noEnd : .eof ∉ kinds) (follows : other ∈ F) :
    outcome = none ∧ ∀ kind, Offers F p front kind → kind ∈ kinds := by
  constructor
  · have nothing : Stalls p (front ++ []) := stalls [] noEnd
    rw [List.append_nil] at nothing
    exact h.none_of_stalls nothing
  · rintro kind ⟨word, more, a, rfl, -, reads⟩
    by_contra missing
    exact (reads [other.word] follows).not_stalls (stalls _ missing)

/-- A parser that stalls in front of all but some kinds notes those only. -/
theorem gets_of_stalls {kinds : List TokenKind} {other : TokenKind} {session : Session}
    {behind : List Word} {position : Nat} (h : Honest F p front outcome)
    (stalls : ∀ behind, firstKind behind ∉ kinds → Stalls p (front ++ behind))
    (noEnd : .eof ∉ kinds) (follows : other ∈ F) (splits : session.Splits front behind position) :
    Gets (· ∈ kinds) none behind position session (p session) := by
  obtain ⟨rfl, offered⟩ := h.of_stalls stalls noEnd follows
  exact (h.gets session behind position splits).mono fun kind noted =>
    noted.elim (offered kind) fun ⟨_, _, nothing⟩ => nomatch nothing

/-- A parser that stalls in front of all but one kind takes the word of that kind. -/
theorem takes_of_stalls {kind other : TokenKind} (h : Honest F p [] outcome)
    (stalls : ∀ words, firstKind words ≠ kind → Stalls p words) (noEnd : kind ≠ .eof)
    (follows : other ∈ F) : Takes kind p := by
  intro session behind position splits there
  have listed : TokenKind.eof ∉ [kind] := fun found => noEnd (List.mem_singleton.mp found).symm
  refine (h.gets_of_stalls (fun words others => ?_) listed follows splits).mono
    fun _ => List.mem_singleton.mp
  exact stalls words fun same => others (List.mem_singleton.mpr same)

/-- A parser that does what another one does in front of all but some kinds, which it offers. -/
theorem dispatch (kinds : List TokenKind) (h : Honest F q front outcome)
    (same : ∀ good behind session, session.Faces (front ++ behind) .adql good →
      firstKind behind ∉ kinds → p session = q session)
    (offered : ∀ kind ∈ kinds, Offers F p front kind)
    (gets : ∀ session behind position, session.Splits front behind position →
      firstKind behind ∈ kinds → Gets (fun kind => Offers F q front kind ∨ kind ∈ kinds)
        outcome behind position session (p session)) : Honest F p front outcome := by
  have offers (kind : TokenKind) (offers : Offers F q front kind) : Offers F p front kind := by
    by_cases found : kind ∈ kinds
    · exact offered kind found
    · refine offers.of_reads fun behind a first final reads good session faces => ?_
      rw [same good behind session faces (first ▸ found)]
      exact reads good session faces
  refine ⟨h.shorter, fun kind => ?_, fun session behind position splits => ?_⟩
  · by_cases found : kind ∈ kinds
    · exact .inl (offered kind found)
    · refine (h.steady kind).imp (offers kind) fun steady behind first => ?_
      have alike {good : Word → Prop} {session : Session}
          (faces : session.Faces (front ++ behind) .adql good) : p session = q session :=
        same good behind session faces (first ▸ found)
      exact (steady behind first).of_reads
        (fun a final reads good session faces => alike faces ▸ reads good session faces)
        fun stalls good session faces => alike faces ▸ stalls good session faces
  · by_cases found : firstKind behind ∈ kinds
    · exact (gets session behind position splits found).mono fun kind noted =>
        .inl (noted.elim (offers kind) (offered kind))
    · rw [same _ behind session splits.faces found]
      exact (h.gets session behind position splits).mono fun kind =>
        .imp_left (offers kind)

/-- A parser at the end of the front that offers some kinds, and does the same in front of all
others. -/
theorem at_end (kinds : List TokenKind) (shorter : ∀ a rest, outcome = some (a, rest) → rest = [])
    (offered : ∀ kind ∈ kinds, Offers F p [] kind)
    (does : ∀ behind, firstKind behind ∉ kinds → Does p [] behind outcome)
    (gets : ∀ session behind position, session.Splits [] behind position →
      Gets (· ∈ kinds) outcome behind position session (p session)) : Honest F p [] outcome where
  shorter a rest same := (shorter a rest same ▸ Nat.le_refl _)
  steady kind := by
    by_cases found : kind ∈ kinds
    · exact .inl (offered kind found)
    · exact .inr fun behind first => does behind (first ▸ found)
  gets session behind position splits :=
    (gets session behind position splits).mono fun kind found => .inl (offered kind found)

end Honest

end Adql
