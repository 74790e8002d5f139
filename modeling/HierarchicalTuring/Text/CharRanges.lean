/-! # Ranges of code points

* `CharRanges` is a set of characters given by closed ranges of code points, and
  `CharRanges.contains` decides membership (`contains_iff`).
-/

set_option autoImplicit false

namespace HierarchicalTuring.Text

/-- A set of characters: closed ranges of code points. -/
abbrev CharRanges := List (Nat × Nat)

/-- Whether a character lies in one of the ranges. -/
def CharRanges.contains (ranges : CharRanges) (c : Char) : Bool :=
  ranges.any fun range => range.1 ≤ c.toNat && c.toNat ≤ range.2

theorem CharRanges.contains_iff {ranges : CharRanges} {c : Char} :
    ranges.contains c = true ↔ ∃ range ∈ ranges, range.1 ≤ c.toNat ∧ c.toNat ≤ range.2 := by
  simp [CharRanges.contains]

end HierarchicalTuring.Text
