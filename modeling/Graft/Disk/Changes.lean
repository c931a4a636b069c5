import Graft.Disk

/-!
# Changes between disks

The steps that lead from one disk to another: what is new comes first, in the order in which it came
about, then what replaces something, and what is removed last. So a backup is there before the file
it is of is written. What is the same in both needs no step. Permission bits are not compared.
-/

namespace Graft

/-- One step from a disk to another. -/
inductive Change where
  /-- Make a directory. -/
  | makeDirectory (l : Location)
  /-- Write a file, new or not. -/
  | writeFile (l : Location) (content : ByteArray)
  /-- Remove a file. -/
  | removeFile (l : Location)

namespace Disk

/-- The step that puts a node at a location, if one is needed. -/
def arrival (old : Disk) (l : Location) : Node → Option Change
  | .directory _ =>
    match old.at? l with
    | some (.directory _) => none
    | _ => some (.makeDirectory l)
  | .file f =>
    match old.at? l with
    | some (.file g) => if f.content = g.content then none else some (.writeFile l f.content)
    | _ => some (.writeFile l f.content)

/-- The step that removes a node from a location, if one is needed. -/
def departure (new : Disk) (l : Location) : Node → Option Change
  | .directory _ => none
  | .file _ => if (new.at? l).isSome then none else some (.removeFile l)

/-- The steps from one disk to another. -/
def changes (old new : Disk) : List Change :=
  let (fresh, kept) := new.nodes.toList.partition fun (l, _) => (old.at? l).isNone
  (fresh ++ kept).filterMap (fun (l, node) => arrival old l node) ++
    old.nodes.toList.filterMap (fun (l, node) => departure new l node)

end Disk

end Graft
