import Graft.Decimal.Binary
import Graft.Table

/-!
# JSON values

A value as a JSON file gives it. Whole numbers and numbers with a fraction or an exponent are kept
apart, and an object keeps its keys in the order in which they came.
-/

namespace Graft

/-- A JSON value. -/
inductive Json where
  /-- The null value. -/
  | null
  /-- A truth value. -/
  | bool (value : Bool)
  /-- A number written without fraction and exponent. -/
  | int (value : Int)
  /-- Any other number. -/
  | float (value : Binary)
  /-- A string. -/
  | str (value : Text)
  /-- An array. -/
  | arr (items : List Json)
  /-- An object. -/
  | obj (fields : List (Text × Json))

namespace Json

/-- The value under a key of an object. -/
def get? (key : Text) : Json → Option Json
  | obj fields => Table.get? key fields
  | _ => none

/-- The text of a string. -/
def str? : Json → Option Text
  | str t => some t
  | _ => none

/-- The items of an array. -/
def items : Json → List Json
  | arr vs => vs
  | _ => []

/-- The fields of an object. -/
def fields : Json → List (Text × Json)
  | obj fs => fs
  | _ => []

/-- Whether a value counts as given: null, false, zero and everything empty does not. -/
def isGiven : Json → Bool
  | null => false
  | bool b => b
  | int n => n != 0
  | float x => !x.isZero
  | str t => !t.isEmpty
  | arr vs => !vs.isEmpty
  | obj fs => !fs.isEmpty

/-- The value if it counts as given. -/
def given? (v : Json) : Option Json :=
  if v.isGiven then some v else none

end Json

end Graft
