/-!
# Ranges of code points

A property of characters is held as a list of closed ranges of code points.
-/

namespace LC3.Text

/-- The code points from `first` to `last`. -/
structure CodeRange where
  first : Nat
  last : Nat

/-- Some range of the list holds the character. -/
def CodeRange.covers (ranges : List CodeRange) (c : Char) : Bool :=
  ranges.any fun r => r.first ≤ c.toNat && c.toNat ≤ r.last

end LC3.Text
