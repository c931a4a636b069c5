import Graft.Decimal.Shortest
import Graft.Json.Basic
import Graft.Text.Quoted

/-!
# JSON values in messages

A message shows a value on one line: strings between quotes as `Text.quoted` writes them, arrays
between brackets and objects between braces with a comma and a space between entries, the other
constants by their names.
-/

namespace Graft

namespace Json

/-- Numbers in messages and in files have a point from `10 ^ -4` up to `10 ^ 16`. -/
def shownNumber : Binary.Layout := ⟨-4, 15, 2, "nan".toText, "inf".toText⟩

mutual

/-- The value as a message shows it. -/
def shown : Json → Text
  | null => "None".toText
  | bool true => "True".toText
  | bool false => "False".toText
  | int n => Text.ofInt n
  | float x => shownNumber.text x
  | str t => Text.quoted t
  | arr vs => .char '[' :: Text.join ", ".toText (shownItems vs) ++ [.char ']']
  | obj fs => .char '\x7b' :: Text.join ", ".toText (shownFields fs) ++ [.char '\x7d']

/-- The items of an array as a message shows them. -/
def shownItems : List Json → List Text
  | [] => []
  | v :: vs => v.shown :: shownItems vs

/-- The fields of an object as a message shows them. -/
def shownFields : List (Text × Json) → List Text
  | [] => []
  | (k, v) :: fs => (Text.quoted k ++ ": ".toText ++ v.shown) :: shownFields fs

end

/-- The value as a text: a string is its own text, everything else is shown. -/
def asText : Json → Text
  | str t => t
  | v => v.shown

end Json

end Graft
