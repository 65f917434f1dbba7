/-!
# Tables of code point ranges

A character property is stored as a list of closed ranges in ascending order.
`RangeTable.covers` decides membership; it stops at the first range that starts beyond the code
point, so the characters that occur most, which have small code points, are decided first.
-/

namespace Adql.Text

/-- A character property as closed ranges of code points, in ascending order. -/
abbrev RangeTable := List (Nat × Nat)

namespace RangeTable

/-- A code point is covered when one of the ranges holds it. -/
def covers : RangeTable → Nat → Bool
  | [], _ => false
  | (low, high) :: rest, point =>
    if point < low then false
    else if point ≤ high then true
    else covers rest point

/-- The empty table covers nothing. -/
@[simp] theorem covers_nil (point : Nat) : covers [] point = false := rfl

/-- Whatever a table covers lies in one of its ranges. -/
theorem exists_range_of_covers {table : RangeTable} {point : Nat}
    (h : covers table point = true) :
    ∃ range ∈ table, range.1 ≤ point ∧ point ≤ range.2 := by
  induction table with
  | nil => simp at h
  | cons range rest ih =>
    obtain ⟨low, high⟩ := range
    unfold covers at h
    split at h
    · simp at h
    · split at h
      · exact ⟨(low, high), by simp, by simp_all⟩
      · obtain ⟨range, hmem, hrange⟩ := ih h
        exact ⟨range, List.mem_cons_of_mem _ hmem, hrange⟩

end RangeTable

end Adql.Text
