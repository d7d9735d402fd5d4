/-!
# Character classes by ranges

A character class is a sorted list of closed ranges of code points, and membership is a walk along
that list that stops at the first range above the code point. Keeping the classes as data means
that a question about one of them is a computation.
-/

namespace PageCompiler

/-- A class of characters: closed ranges of code points, in increasing order and disjoint. -/
abbrev CharRanges := List (Nat × Nat)

namespace CharRanges

/-- Whether a code point lies in one of the ranges. -/
def containsCode : CharRanges → Nat → Bool
  | [], _ => false
  | (lo, hi) :: rest, n => if n < lo then false else if n ≤ hi then true else containsCode rest n

def contains (ranges : CharRanges) (c : Char) : Bool := ranges.containsCode c.toNat

end CharRanges

end PageCompiler
