import Graft.Disk
import Graft.Environment

/-!
# Projects

A project is a directory that holds the directories of a Unity project. Its root is the one that the
environment names, if it is there, or else the nearest directory at or above a starting point that
looks like one, or else the starting point itself.
-/

namespace Graft

/-- A project. -/
structure Project where
  /-- The directory of the project. -/
  root : Path

namespace Project

/-- The directories by which a project is known. -/
def markers : List Text := ["ProjectSettings".toText, "Assets".toText]

/-- Whether a location looks like the root of a project: it is a directory and holds the others. -/
def isRoot (d : Disk) (l : Location) : Except OsError Bool :=
  (l :: markers.map fun m => l ++ [m]).allM fun l =>
    (· matches some (.directory _)) <$> d.look (.ofLocation l)

/-- A location and those above it, up to the root. -/
def ancestors (l : Location) : List Location :=
  ((List.range (l.length + 1)).map (l.take ·)).reverse

/-- The root that the environment names, if it is there. -/
def namedRoot? (env : Environment) (d : Disk) : Except Breakdown (Option Location) :=
  match env.trimmed? Environment.rootVariable with
  | none => .ok none
  | some t => do
    let l ← (d.resolve (← env.path t)).mapError .os
    let node? ← (d.look (.ofLocation l)).mapError .os
    return if node?.isSome then some l else none

/-- The nearest root of a project at or above a starting point, or else the starting point. -/
def rootAbove (d : Disk) (start : Path) : Except OsError Location := do
  let base ← d.resolve start
  return ((← (ancestors base).findM? (isRoot d)).getD base)

/-- The project that a starting point is in; without one it is the working directory. -/
def find (env : Environment) (d : Disk) (start : Option Path) : Except Breakdown Project := do
  match ← namedRoot? env d with
  | some l => return ⟨.ofLocation l⟩
  | none => return ⟨.ofLocation (← (rootAbove d (start.getD ⟨.here, []⟩)).mapError .os)⟩

/-- The file that is patched unless said otherwise. -/
def templatePath (p : Project) : Path :=
  p.root.join (.ofText "Assets/Plugins/Android/mainTemplate.gradle".toText)

/-- The file of the configuration. -/
def configPath (p : Project) : Path :=
  p.root.join (.ofText "ProjectSettings/gradlepatch.json".toText)

end Project

end Graft
