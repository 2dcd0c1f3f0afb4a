/-!
# Sets of code points

Character classes that a standard defines by listing code points. A class is a list of inclusive
ranges in ascending order; membership is a search through the ranges.
-/

namespace EsOptimizer

/-- A set of code points, as inclusive ranges in ascending order. -/
structure CodePoints where
  ranges : List (Nat × Nat)

namespace CodePoints

/-- Whether the set holds the code point of `c`. -/
def contains (s : CodePoints) (c : Char) : Bool :=
  s.ranges.any fun (lo, hi) => lo ≤ c.toNat && c.toNat ≤ hi

end CodePoints

end EsOptimizer
