import Graft.Payload.Violation
import Graft.Text.Word

/-!
# The format of fragment files

A check lists the violations in a value, all of them, each check of a part looking only at values of
its own type. The format is an object that names its version and lists fragments and, if it likes,
version sets; `violations` checks it. Unknown keys are not allowed anywhere but for the names of
version sets and of their keys, and the latter must be identifiers.
-/

namespace Graft

namespace Payload

/-- A check lists the violations in a value, their paths starting at it. -/
abbrev Check := Json → List Violation

namespace Check

/-- A violation at the value itself. -/
def here (fault : Fault) : List Violation := [⟨[], fault⟩]

/-- The value is a text. -/
def isText : Check
  | .str _ => []
  | v => here (.wrongType v ["string".toText])

/-- The value is a text or null. -/
def isTextOrNull : Check
  | .str _ => []
  | .null => []
  | v => here (.wrongType v ["string".toText, "null".toText])

/-- The value is an array. -/
def isArray : Check
  | .arr _ => []
  | v => here (.wrongType v ["array".toText])

/-- The value is an object. -/
def isObject : Check
  | .obj _ => []
  | v => here (.wrongType v ["object".toText])

/-- A text is not empty. -/
def notEmptyText : Check
  | .str [] => here (.empty (.str []))
  | _ => []

/-- An array is not empty. -/
def notEmptyArray : Check
  | .arr [] => here (.empty (.arr []))
  | _ => []

/-- An object is not empty. -/
def notEmptyObject : Check
  | .obj [] => here (.empty (.obj []))
  | _ => []

/-- A text satisfies a predicate that a pattern names. -/
def matching (pattern : Text) (p : Text → Bool) : Check
  | .str t => if p t then [] else here (.mismatch t pattern)
  | _ => []

/-- The value is one text. -/
def isConstant (expected : Text) : Check
  | .str t => if t = expected then [] else here (.notConstant expected)
  | _ => here (.notConstant expected)

/-- The value is one of some texts. -/
def isOneOf (choices : List Text) : Check
  | .str t => if choices.elem t then [] else here (.notOneOf (.str t) choices)
  | v => here (.notOneOf v choices)

/-- An object has some keys. -/
def hasKeys (keys : List Text) : Check
  | .obj fields =>
    (keys.filter fun k => !(Table.keys fields).elem k).flatMap fun k => here (.missingKey k)
  | _ => []

/-- An object has no keys but some. -/
def onlyKeys (keys : List Text) : Check
  | .obj fields =>
    let extra := (Table.keys fields).filter fun k => !keys.elem k
    if extra.isEmpty then []
    else here (.unexpectedKeys (extra.mergeSort fun a b => !Text.before b a))
  | _ => []

/-- The value under a key of an object, if there is one, passes a check. -/
def atKey (key : Text) (check : Check) : Check := fun v =>
  match v.get? key with
  | some w => (check w).map (·.under key)
  | none => []

/-- The violations in items numbered from `n`. -/
def inItems (check : Check) : Nat → List Json → List Violation
  | _, [] => []
  | n, v :: vs => (check v).map (·.under (Text.ofNat n)) ++ inItems check (n + 1) vs

/-- Every item of an array passes a check. -/
def eachItem (check : Check) : Check := fun v => inItems check 0 v.items

/-- Every value of an object passes a check. -/
def eachField (check : Check) : Check := fun v =>
  v.fields.flatMap fun (k, w) => (check w).map (·.under k)

/-- Every key of an object, taken as a text, passes a check. -/
def eachKey (check : Check) : Check := fun v =>
  v.fields.flatMap fun (k, _) => check (.str k)

/-- The value passes several checks. -/
def all (checks : List Check) : Check := fun v => checks.flatMap (· v)

end Check

open Check

/-- The text without one line feed at its end. -/
def dropFinalLineFeed (t : Text) : Text :=
  if t.getLast? = some (.char '\n') then t.dropLast else t

/-- Whether a text is one line that is not empty, ended or not. -/
def isOneLine (t : Text) : Bool :=
  let t := dropFinalLineFeed t
  !t.isEmpty && t.all (· ≠ .char '\n')

/-- The pattern of one line. -/
def oneLinePattern : Text := "^[^\\n]+$".toText

/-- Whether a text is an identifier of the basic alphabet, followed or not by a line feed. -/
def isIdentifier (t : Text) : Bool :=
  match dropFinalLineFeed t with
  | [] => false
  | c :: r => Text.isIdentifierStart c && r.all Text.isIdentifierPart

/-- The pattern of identifiers. -/
def identifierPattern : Text := "^[A-Za-z_][A-Za-z0-9_]*$".toText

/-- The name of the format and its version. -/
def contract : Text := "fragment_set/1.0".toText

/-- A text that is not empty. -/
def filledText : Check := all [isText, notEmptyText]

/-- An array of texts that are not empty. -/
def filledTexts : Check := all [isArray, eachItem filledText]

/-- An anchor that may be meant for a block names it. An anchor of no kind may be, too. -/
def namesBlock : Check := fun v =>
  match v.get? "kind".toText with
  | some (.str kind) => if kind = "block".toText then hasKeys ["block".toText] v else []
  | some _ => []
  | none => hasKeys ["block".toText] v

/-- An anchor. -/
def anchor : Check := all [
  isObject, hasKeys ["kind".toText], onlyKeys ["kind".toText, "block".toText],
  atKey "kind".toText (isOneOf ["block".toText, "eof".toText]),
  atKey "block".toText filledText,
  namesBlock]

/-- A fragment. -/
def fragment : Check := all [
  isObject, hasKeys ["marker".toText, "template".toText, "anchor".toText],
  onlyKeys ["marker".toText, "template".toText, "anchor".toText, "required".toText,
    "block".toText, "after".toText, "description".toText],
  atKey "marker".toText (all [isText, notEmptyText, matching oneLinePattern isOneLine]),
  atKey "template".toText filledText,
  atKey "anchor".toText anchor,
  atKey "required".toText filledTexts,
  atKey "block".toText (all [isTextOrNull, notEmptyText]),
  atKey "after".toText filledTexts,
  atKey "description".toText isText]

/-- The values of one version set. -/
def versions : Check := all [
  isObject, notEmptyObject,
  eachKey (matching identifierPattern isIdentifier), eachField filledText]

/-- Everything in a value that the format does not allow. -/
def violations : Check := all [
  isObject, hasKeys ["contract".toText, "fragments".toText],
  onlyKeys ["contract".toText, "fragments".toText, "version_sets".toText],
  atKey "contract".toText (isConstant contract),
  atKey "fragments".toText (all [isArray, notEmptyArray, eachItem fragment]),
  atKey "version_sets".toText (all [isObject, eachField versions])]

/-- Refuses a value that the format does not allow, with the first violation in the order. -/
def validate (v : Json) : Except Violation Unit :=
  match Violation.leastOf (violations v) with
  | some w => .error w
  | none => .ok ()

end Payload

end Graft
