/-! Character classes given as lists of closed ranges of code points. -/

namespace Unnest.Text

/-- The character lies in one of the ranges, ends included. -/
def inRanges (ranges : List (Nat × Nat)) (c : Char) : Bool :=
  ranges.any fun (first, last) => first ≤ c.toNat && c.toNat ≤ last

/-- How many code points the ranges hold, if no two of them overlap. -/
def rangesSize (ranges : List (Nat × Nat)) : Nat :=
  ranges.foldr (fun (first, last) size => last + 1 - first + size) 0

end Unnest.Text
