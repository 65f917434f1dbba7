import Adql.Token

/-!
# Sets of token kinds

A set of token kinds is kept as one bit per kind, at the place of the kind in the order.  Two sets
are therefore equal exactly when they have the same members, however they were built, and the
members are listed in the order of the kinds.
-/

namespace Adql

/-- A set of token kinds. -/
structure KindSet where
  /-- The bit at the index of a kind tells whether the kind is a member. -/
  bits : Nat
  deriving DecidableEq

namespace KindSet

/-- The set without members. -/
def empty : KindSet := ⟨0⟩

/-- Is the kind a member? -/
def contains (set : KindSet) (kind : TokenKind) : Bool :=
  set.bits.testBit kind.index

/-- Membership is what the bit of the kind says. -/
instance : Membership TokenKind KindSet where
  mem set kind := set.contains kind = true

/-- Membership is decided by looking at the bit. -/
instance (kind : TokenKind) (set : KindSet) : Decidable (kind ∈ set) :=
  inferInstanceAs (Decidable (set.contains kind = true))

/-- The set with one more member. -/
def insert (set : KindSet) (kind : TokenKind) : KindSet :=
  ⟨set.bits ||| 1 <<< kind.index⟩

/-- The set with one member. -/
def singleton (kind : TokenKind) : KindSet :=
  empty.insert kind

/-- The members in the order of the kinds. -/
def toList (set : KindSet) : List TokenKind :=
  TokenKind.all.filter set.contains

/-- Is there no member? -/
def isEmpty (set : KindSet) : Bool :=
  set.bits = 0

/-- The empty set has no members. -/
theorem not_mem_empty (kind : TokenKind) : kind ∉ empty := by
  simp [Membership.mem, contains, empty]

/-- The list holds exactly the members. -/
theorem mem_toList {set : KindSet} {kind : TokenKind} : kind ∈ set.toList ↔ kind ∈ set := by
  rw [toList, List.mem_filter]
  exact ⟨And.right, fun h => ⟨TokenKind.mem_all kind, h⟩⟩

/-- The members after an insertion are the inserted kind and those that were. -/
theorem mem_insert {set : KindSet} {kind other : TokenKind} :
    other ∈ set.insert kind ↔ other = kind ∨ other ∈ set := by
  have hbit : (1 <<< kind.index).testBit other.index = true ↔ other = kind := by
    rw [Nat.shiftLeft_eq, Nat.one_mul, Nat.testBit_two_pow, decide_eq_true_eq]
    exact ⟨fun h => TokenKind.index_injective h.symm, fun h => congrArg TokenKind.index h.symm⟩
  change (set.bits ||| 1 <<< kind.index).testBit other.index = true ↔ _
  rw [Nat.testBit_or, Bool.or_eq_true, hbit, or_comm]
  rfl

/-- The only member of a set with one member. -/
theorem mem_singleton {kind other : TokenKind} : other ∈ singleton kind ↔ other = kind := by
  rw [singleton, mem_insert]
  exact ⟨fun h => h.resolve_right (not_mem_empty other), Or.inl⟩

end KindSet

end Adql
