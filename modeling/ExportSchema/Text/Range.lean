/-!
# Sorted ranges of code points

A character class is a table of closed ranges in increasing order. `inRanges` looks a code point
up and stops at the first range above it.
-/

namespace ExportSchema.Text

/-- Is `n` in one of the ranges? The table is increasing, so the search ends early. -/
def inRanges : List (Nat × Nat) → Nat → Bool
  | [], _ => false
  | (lo, hi) :: rest, n => if n < lo then false else if n ≤ hi then true else inRanges rest n

end ExportSchema.Text
