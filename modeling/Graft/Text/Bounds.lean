/-!
# Sets of code points given by their bounds

A set of characters that a standard fixes is kept as the ascending list of the code points at
which membership changes: a code point belongs to the set exactly when an odd number of bounds
are at most it. Half-open runs `[a, b)` thus stand in the list as `a, b`.
-/

namespace Graft

namespace Text

/-- Whether an odd number of the ascending `bounds` are at most `n`. -/
def withinBounds (bounds : List Nat) (n : Nat) : Bool :=
  (bounds.takeWhile (· ≤ n)).length % 2 == 1

end Text

end Graft
