import Graft.Table
import Graft.Text.Blank
import Graft.Text.Lower
import Graft.Text.Quoted

/-!
# Version sets

A version set gives each version key of the fragments its value. A set is selected by name: blanks
around the name and the case of its letters do not matter. Overriding keys makes a new set whose
name tells that it was overridden; overriding nothing leaves the set as it is.
-/

namespace Graft

/-- A named table of version values. -/
structure VersionSet where
  /-- The name of the set. -/
  name : Text
  /-- The value of each version key. -/
  versions : Table Text
  deriving DecidableEq, Repr

/-- A name that no version set has, and the names there are. -/
structure UnknownToolchain where
  /-- What was asked for, if anything was. -/
  asked : Option Text
  /-- The names of the sets there are, in order. -/
  known : List Text
  deriving DecidableEq, Repr

namespace UnknownToolchain

/-- The refusal in words. -/
def message (e : UnknownToolchain) : Text :=
  "unknown toolchain ".toText ++ (e.asked.map Text.quoted).getD "None".toText ++
    " (known: ".toText ++ Text.join ", ".toText e.known ++ ")".toText

end UnknownToolchain

namespace VersionSet

/-- The value of a version key. -/
def get? (set : VersionSet) (key : Text) : Option Text :=
  Table.get? key set.versions

/-- The set with some values replaced or added. -/
def overriddenBy (set : VersionSet) (overrides : Table Text) : VersionSet :=
  if overrides.isEmpty then set
  else ⟨set.name ++ "+overrides".toText, set.versions.putAll overrides⟩

/-- The key under which a set is looked up for a name. -/
def selector (toolchain : Text) : Text :=
  Text.lower (Text.trim toolchain)

/-- The set that a name selects; no name is no better than an empty one. -/
def select (available : Table VersionSet) (toolchain : Option Text) :
    Except UnknownToolchain VersionSet :=
  match available.get? (selector (toolchain.getD [])) with
  | some set => .ok set
  | none => .error ⟨toolchain, available.keys.mergeSort fun a b => !Text.before b a⟩

end VersionSet

end Graft
