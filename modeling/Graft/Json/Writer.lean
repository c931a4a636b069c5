import Graft.Decimal.Shortest
import Graft.Json.Basic
import Graft.Text.Quoted

/-!
# Writing JSON

`Json.indented` writes a value over several lines, each level two spaces further in; empty arrays
and objects stay on their line. `Json.compact` writes it on one line. Strings keep every code point
but the quote, the backslash and the controls below the space.
-/

namespace Graft

namespace Json

/-- Numbers in files are laid out like those in messages but for the names of the values that are
not finite. -/
def writtenNumber : Binary.Layout := ⟨-4, 15, 2, "NaN".toText, "Infinity".toText⟩

/-- A code point inside a string. -/
def writeChar (c : CodePoint) : Text :=
  if c = .char '"' then "\\\"".toText
  else if c = .char '\\' then "\\\\".toText
  else if c = .char '\n' then "\\n".toText
  else if c = .char '\r' then "\\r".toText
  else if c = .char '\t' then "\\t".toText
  else if c.toNat = 0x08 then "\\b".toText
  else if c.toNat = 0x0c then "\\f".toText
  else if c.toNat < 0x20 then "\\u".toText ++ Text.hexadecimal 4 c.toNat
  else [c]

/-- A string with its quotes. -/
def writeString (t : Text) : Text :=
  .char '"' :: t.flatMap writeChar ++ [.char '"']

/-- A line break and the indentation of a level. -/
def newLine (level : Nat) : Text :=
  .char '\n' :: List.replicate (2 * level) (.char ' ')

/-- Entries between an opening and a closing character, each on a line of its own, at a level. -/
def enclose (level : Nat) (opening closing : CodePoint) (entries : List Text) : Text :=
  if entries.isEmpty then [opening, closing]
  else
    opening :: newLine (level + 1) ++ Text.join (.char ',' :: newLine (level + 1)) entries ++
      newLine level ++ [closing]

mutual

/-- The value over several lines, its first line standing at a level. -/
def writeAt (level : Nat) : Json → Text
  | null => "null".toText
  | bool true => "true".toText
  | bool false => "false".toText
  | int n => Text.ofInt n
  | float x => writtenNumber.text x
  | str t => writeString t
  | arr vs => enclose level (.char '[') (.char ']') (writeItemsAt (level + 1) vs)
  | obj fs => enclose level (.char '\x7b') (.char '\x7d') (writeFieldsAt (level + 1) fs)

/-- The items of an array at a level. -/
def writeItemsAt (level : Nat) : List Json → List Text
  | [] => []
  | v :: vs => writeAt level v :: writeItemsAt level vs

/-- The fields of an object at a level. -/
def writeFieldsAt (level : Nat) : List (Text × Json) → List Text
  | [] => []
  | (k, v) :: fs => (writeString k ++ ": ".toText ++ writeAt level v) :: writeFieldsAt level fs

end

/-- The value over several lines. -/
def indented (v : Json) : Text :=
  writeAt 0 v

mutual

/-- The value on one line. -/
def compact : Json → Text
  | arr vs => .char '[' :: Text.join [.char ','] (compactItems vs) ++ [.char ']']
  | obj fs => .char '\x7b' :: Text.join [.char ','] (compactFields fs) ++ [.char '\x7d']
  | v => writeAt 0 v

/-- The items of an array on one line. -/
def compactItems : List Json → List Text
  | [] => []
  | v :: vs => compact v :: compactItems vs

/-- The fields of an object on one line. -/
def compactFields : List (Text × Json) → List Text
  | [] => []
  | (k, v) :: fs => (writeString k ++ .char ':' :: compact v) :: compactFields fs

end

end Json

end Graft
