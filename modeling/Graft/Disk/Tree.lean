import Graft.Disk

/-!
# Trees of files

What is below a directory as a whole: `listing` tells what is there, and `removeTree` takes it off
the disk. If the working directory is taken off, it is kept as a detached directory, and so are
those between it and what was removed (`uproot`). Otherwise all that was at and below a location is
gone, and nothing else (`at?_uproot_of_isPrefixOf`, `at?_uproot_of_not_isPrefixOf`).
-/

namespace Graft

namespace Disk

/-- Whether a location is below another. -/
def isBelow (l base : Location) : Bool :=
  base.isPrefixOf l && base.length < l.length

/-- The directories whose permission bits do not grant a right. -/
def without (d : Disk) (r : Right) : List Location :=
  d.nodes.toList.filterMap fun
    | (l, .directory mode) => if mode.grants r then none else some l
    | (_, .file _) => none

/-- What is below a location, each node with its location. What is in a directory that cannot be
listed is left out, and what is listed in one that does not let names be looked up is refused. -/
def listing (d : Disk) (base : Location) : Except OsError (List (Location × Node)) :=
  let hidden := d.without .read
  let listed := d.nodes.toList.filter fun (l, _) =>
    isBelow l base && !isDetached l && !hidden.any (isBelow l ·)
  let sealed := d.without .search
  match listed.find? fun (l, _) => sealed.any (isBelow l ·) with
  | some (l, _) => .error (.denied (.ofLocation l))
  | none => .ok listed

/-- Where a location at or below one that is removed is kept. -/
def detached (removed l : Location) : Location :=
  removed.dropLast ++ List.replicate (l.length + 1 - removed.length) []

/-- The disk without what is at and below a location, but for the directories on the way from there
to the user. -/
def uproot (d : Disk) (l : Location) : Disk :=
  let rest := d.nodes.filter fun (key, _) => !l.isPrefixOf key.location
  if l.isPrefixOf d.here then
    let way := d.nodes.filter fun (key, _) =>
      l.isPrefixOf key.location && key.location.isPrefixOf d.here
    ⟨rest ++ way.map fun (key, node) => (.of (detached l key.location), node), detached l d.here⟩
  else { d with nodes := rest }

/-- Whether a directory at or below a location keeps what is below the location from being removed:
it cannot be listed, or there are entries in it that cannot be taken out. -/
def isStuck (d : Disk) (l : Location) : Bool :=
  d.nodes.toList.any fun
    | (k, .directory mode) =>
      l.isPrefixOf k && (!mode.grants .read ||
        !(mode.grants .write && mode.grants .search) && !(d.entries k).isEmpty)
    | (_, .file _) => false

/-- The disk without what a path leads to, and if that is a directory, without everything below. A
directory that cannot be taken out of the one that holds it is only emptied. -/
def removeTree (d : Disk) (path : Path) : Disk × Except OsError Unit :=
  match d.look path with
  | .ok (some (.directory _)) =>
    match d.openDirectory path with
    | .error e => (d, .error e)
    | .ok l =>
      if d.isStuck l then (d, .error (.denied path))
      else
        let emptied := (d.entries l).foldl (fun d name => d.uproot (l ++ [name])) d
        match emptied.locate path with
        | .error e => (emptied, .error e)
        | .ok _ =>
          if !path.isEntry then (emptied, .error (.invalid path))
          else
            match emptied.holder path l with
            | .error e => (emptied, .error e)
            | .ok _ => (emptied.uproot l, .ok ())
  | _ =>
    match d.removeFile path with
    | .error e => (d, .error e)
    | .ok d => (d, .ok ())

/-- Nothing is left at or below what was removed while the user was elsewhere. -/
theorem at?_uproot_of_isPrefixOf {d : Disk} {l k : Location} (hl : l ≠ [])
    (hk : l.isPrefixOf k = true) (hd : l.isPrefixOf d.here = false) :
    (d.uproot l).at? k = none := by
  have hne : k ≠ [] := by
    rintro rfl
    cases l with
    | nil => exact hl rfl
    | cons x xs => simp at hk
  have hnone : (d.uproot l).nodes.find? (.of k) = none := by
    simp only [uproot, hd, Bool.false_eq_true, if_false]
    refine Nodes.find?_eq_none fun e he heq => ?_
    simp [heq, Key.of, hk] at he
  simp [at?, hnone, hne]

/-- What is not at or below what was removed is as it was. -/
theorem at?_uproot_of_not_isPrefixOf {d : Disk} {l k : Location}
    (hk : l.isPrefixOf k = false) (hd : l.isPrefixOf d.here = false) :
    (d.uproot l).at? k = d.at? k := by
  simp only [at?, uproot, hd, Bool.false_eq_true, if_false]
  rw [Nodes.find?_filter_of_keeps fun node => by simp [Key.of, hk]]

end Disk

end Graft
