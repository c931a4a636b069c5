import Graft.Fragment.Set

/-!
# The built-in fragments

The two fragments that a Unity Android template needs, and the version sets they can be filled
with: the runtime dependencies go into the `dependencies` block, and the block that keeps a class
from being packed twice goes to the end of the file, after them.
-/

namespace Graft

namespace Defaults

/-- The marker of the runtime dependencies. -/
def dependencyMarker : Text := "// [GradlePatch] Dependencies".toText

/-- The marker of the conflict resolution. -/
def resolutionMarker : Text := "// [GradlePatch] Conflict Resolution".toText

/-- The runtime dependencies. -/
def dependencies : Fragment where
  marker := dependencyMarker
  template :=
    "implementation 'androidx.browser:browser:$\x7bbrowser\x7d'\n".toText ++
    "implementation 'androidx.versionedparcelable:versionedparcelable:$\x7bversionedparcelable\x7d'\n".toText ++
    "implementation 'com.google.guava:guava:$\x7bguava\x7d'\n".toText ++
    "implementation 'com.google.guava:listenablefuture:$\x7blistenablefuture\x7d'\n".toText
  anchor := .inBlock "dependencies".toText
  description := "AndroidX browser + Guava runtime dependencies".toText

/-- The resolution of duplicate classes. -/
def resolution : Fragment where
  marker := resolutionMarker
  template :=
    "configurations.all \x7b\n".toText ++
    "    resolutionStrategy \x7b\n".toText ++
    "        exclude group: 'com.google.guava', module: 'listenablefuture'\n".toText ++
    "        force 'androidx.core:core:$\x7bandroidx_core\x7d'\n".toText ++
    "    \x7d\n".toText ++
    "\x7d\n".toText
  anchor := .endOfFile
  block := some "configurations.all".toText
  after := [dependencyMarker]
  description := "duplicate-class conflict resolution".toText

/-- The built-in fragments in declaration order. -/
def fragments : List Fragment := [dependencies, resolution]

/-- A version set of the five keys that the built-in fragments use. -/
def versionsOf (name browser guava core : String) : VersionSet where
  name := name.toText
  versions := [
    ("browser".toText, browser.toText),
    ("versionedparcelable".toText, "1.1.1".toText),
    ("guava".toText, guava.toText),
    ("listenablefuture".toText, "9999.0-empty-to-avoid-conflict-with-guava".toText),
    ("androidx_core".toText, core.toText)]

/-- Versions for current toolchains. -/
def modern : VersionSet := versionsOf "modern" "1.8.0" "33.0.0-android" "1.13.0"

/-- Versions for older toolchains. -/
def legacy : VersionSet := versionsOf "legacy" "1.4.0" "31.1-android" "1.9.0"

/-- The built-in version sets under their names. -/
def versionSets : Table VersionSet := [(modern.name, modern), (legacy.name, legacy)]

/-- The built-in fragments pass the check. -/
theorem checkAll_fragments : Fragment.checkAll fragments = .ok () := by
  apply Fragment.checkAll_eq_ok
  unfold fragments dependencies resolution dependencyMarker resolutionMarker
  repeat rw [String.toText_ofList]
  decide +kernel

/-- The built-in fragments as a set. -/
def fragmentSet : FragmentSet := ⟨fragments, checkAll_fragments⟩

end Defaults

end Graft
