
-- A Unicode property is given as a list of closed ranges of code points, ascending and disjoint. A
-- character has the property when its code point lies in one of the ranges.

namespace MediaRelay.Text

abbrev CodeRanges := List (Nat × Nat)

def CodeRanges.contains (rs : CodeRanges) (n : Nat) : Bool :=
  rs.any fun r => r.1 ≤ n && n ≤ r.2

theorem CodeRanges.contains_iff (rs : CodeRanges) (n : Nat) :
    rs.contains n = true ↔ ∃ r ∈ rs, r.1 ≤ n ∧ n ≤ r.2 := by
  simp [CodeRanges.contains]

end MediaRelay.Text
