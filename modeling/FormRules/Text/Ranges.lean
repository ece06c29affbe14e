/-
  FormRules.Text.Ranges

  Sets of characters given by a table of ascending ranges of code points.
-/

namespace FormRules

/-- Whether a code point lies in one of the ranges, both ends included. The ranges
    ascend, so the first one that does not end before the code point decides. -/
def inRanges : List (Nat × Nat) → Nat → Bool
  | [], _ => false
  | (low, high) :: ranges, n => if n ≤ high then decide (low ≤ n) else inRanges ranges n

/-- A code point of the first range lies in the set. -/
theorem inRanges_of_first {low high n : Nat} (ranges : List (Nat × Nat))
    (hlow : low ≤ n) (hhigh : n ≤ high) : inRanges ((low, high) :: ranges) n := by
  simp [inRanges, hlow, hhigh]

/-- A code point beyond the first range is looked for in the others. -/
theorem inRanges_of_later {low high n : Nat} {ranges : List (Nat × Nat)}
    (hhigh : high < n) (h : inRanges ranges n) : inRanges ((low, high) :: ranges) n := by
  simp [inRanges, Nat.not_le.2 hhigh, h]

end FormRules
