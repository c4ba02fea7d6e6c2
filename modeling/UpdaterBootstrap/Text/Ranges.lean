/-!
# Code point ranges

A property of characters is given by the inclusive ranges of code points that have it.
-/

namespace UpdaterBootstrap

abbrev CodeRange := Nat × Nat

def inRanges (ranges : List CodeRange) (c : Char) : Bool :=
  ranges.any fun r => r.1 ≤ c.toNat && c.toNat ≤ r.2

end UpdaterBootstrap
