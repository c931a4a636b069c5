import Graft.Json.Shown

/-!
# Violations

A violation is one way in which a part of a JSON value is not what the format allows, and the path
to that part: keys and item numbers from the outside in. Violations are ordered by their paths, part
by part, and then by what they say; `leastOf` picks the one that is reported.
-/

namespace Graft

namespace Payload

/-- What is wrong with a part of a value. -/
inductive Fault where
  /-- The value is of none of the types. -/
  | wrongType (value : Json) (types : List Text)
  /-- The object lacks a key. -/
  | missingKey (key : Text)
  /-- The value is not the one text allowed. -/
  | notConstant (expected : Text)
  /-- The value is none of the texts allowed. -/
  | notOneOf (value : Json) (choices : List Text)
  /-- The text, array or object is empty. -/
  | empty (value : Json)
  /-- The text does not match a pattern. -/
  | mismatch (value pattern : Text)
  /-- The object has keys that are not allowed. -/
  | unexpectedKeys (keys : List Text)

namespace Fault

/-- The fault in words. -/
def message : Fault → Text
  | wrongType value types =>
    value.shown ++ " is not of type ".toText ++ Text.join ", ".toText (types.map Text.quoted)
  | missingKey key => Text.quoted key ++ " is a required property".toText
  | notConstant expected => Text.quoted expected ++ " was expected".toText
  | notOneOf value choices => value.shown ++ " is not one of ".toText ++ Text.quotedList choices
  | empty value => value.shown ++ " should be non-empty".toText
  | mismatch value pattern =>
    Text.quoted value ++ " does not match ".toText ++ Text.quoted pattern
  | unexpectedKeys keys =>
    "Additional properties are not allowed (".toText ++
      Text.join ", ".toText (keys.map Text.quoted) ++
      (if keys.length = 1 then " was unexpected)" else " were unexpected)").toText

end Fault

/-- A fault and the path to the part that has it. -/
structure Violation where
  /-- Keys and item numbers from the outside in. -/
  path : List Text
  /-- What is wrong there. -/
  fault : Fault

namespace Violation

/-- The violation in words. -/
def message (v : Violation) : Text :=
  (if v.path.isEmpty then "<root>".toText else Text.join [.char '/'] v.path) ++ ": ".toText ++
    v.fault.message

/-- The order of paths, part by part; a path comes before its continuations. -/
def pathBefore : List Text → List Text → Bool
  | _, [] => false
  | [], _ :: _ => true
  | a :: as, b :: bs => Text.before a b || (a == b && pathBefore as bs)

/-- The order of violations by their paths and then by what they say. -/
def precedes (v w : Violation) : Bool :=
  pathBefore v.path w.path || (v.path == w.path && Text.before v.fault.message w.fault.message)

/-- The violation seen from one step further out. -/
def under (part : Text) (v : Violation) : Violation :=
  { v with path := part :: v.path }

/-- The first violation in the order, if there is any. -/
def leastOf : List Violation → Option Violation
  | [] => none
  | v :: vs =>
    match leastOf vs with
    | none => some v
    | some w => some (if w.precedes v then w else v)

end Violation

end Payload

end Graft
