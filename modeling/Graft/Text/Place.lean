import Graft.Text.Basic

/-!
# Places in a text

A place is named by its line and its column, both counted from one. `Place.of` gives the place of
an index; an index past the end keeps counting columns on the last line.
-/

namespace Graft

/-- A line and a column, both counted from one. -/
structure Place where
  /-- One plus the number of line feeds before the place. -/
  line : Nat
  /-- One plus the number of characters between the place and the start of its line. -/
  column : Nat
  deriving DecidableEq, Repr

namespace Place

/-- The place of the character at index `i`. -/
def of (t : Text) (i : Nat) : Place where
  line := (t.take i).count (.char '\n') + 1
  column := i - Text.lineStart t i + 1

/-- The place in words. -/
def describe (p : Place) : Text :=
  "line ".toText ++ Text.ofNat p.line ++ ", column ".toText ++ Text.ofNat p.column

end Place

end Graft
