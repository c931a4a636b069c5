import Graft.Fragment.Set
import Graft.Payload.Format

/-!
# Fragment files

A fragment file is a JSON value of the format `Payload.violations` checks. It gives a set of
fragments and, under names whose case does not matter, version sets. Reading either one checks the
value first, so that no part is looked up that might not be there.
-/

namespace Graft

/-- Why a fragment file gives no fragments or version sets. -/
inductive PayloadError where
  /-- The file could not be read, or it holds no JSON. -/
  | unreadable (path reason : Text)
  /-- The value is not of the format. -/
  | violation (violation : Payload.Violation)
  /-- The fragments cannot be used together. -/
  | definition (error : DefinitionError)

namespace PayloadError

/-- The error in words. -/
def message : PayloadError → Text
  | unreadable path reason =>
    "invalid json: ".toText ++ path ++ " (".toText ++ reason ++ ")".toText
  | violation v => v.message
  | definition e => e.message

end PayloadError

namespace Payload

/-- The texts of an array under a key. -/
def textsAt (key : Text) (v : Json) : List Text :=
  (((v.get? key).map Json.items).getD []).filterMap Json.str?

/-- The text under a key. -/
def textAt? (key : Text) (v : Json) : Option Text :=
  (v.get? key).bind Json.str?

/-- The anchor that a value gives. The block of an anchor at the end of the file is not kept. -/
def anchorOf (v : Json) : Anchor :=
  if textAt? "kind".toText v = some "block".toText then
    ⟨"block".toText, textAt? "block".toText v⟩
  else .endOfFile

/-- The fragment that a value gives. -/
def fragmentOf (v : Json) : Fragment where
  marker := (textAt? "marker".toText v).getD []
  template := (textAt? "template".toText v).getD []
  anchor := anchorOf ((v.get? "anchor".toText).getD .null)
  required := textsAt "required".toText v
  block := textAt? "block".toText v
  after := textsAt "after".toText v
  description := (textAt? "description".toText v).getD []

/-- The fragments that a value lists. -/
def fragmentList (v : Json) : List Fragment :=
  (((v.get? "fragments".toText).map Json.items).getD []).map fragmentOf

/-- The table of the texts in an object. -/
def textTable (v : Json) : Table Text :=
  v.fields.filterMap fun (key, w) => w.str?.map (key, ·)

/-- The version sets that a value lists, under their names in lower case; of two names that are the
same in lower case the later one counts. -/
def versionSetTable (v : Json) : Table VersionSet :=
  Table.ofEntries ((((v.get? "version_sets".toText).map Json.fields).getD []).map
    fun (name, w) => (Text.lower name, ⟨Text.lower name, textTable w⟩))

/-- The set of the fragments in a value of the format. -/
def fragments (v : Json) : Except PayloadError FragmentSet := do
  (validate v).mapError .violation
  (FragmentSet.ofList (fragmentList v)).mapError .definition

/-- The version sets in a value of the format. -/
def versionSets (v : Json) : Except PayloadError (Table VersionSet) := do
  (validate v).mapError .violation
  return versionSetTable v

end Payload

end Graft
