import Graft.Fragment.Order

/-!
# Fragment sets

The fragments of one run are checked together before anything else happens. `checkAll` finds the
first fault: markers must be single lines that are not blank, distinct and none inside another, no
template may hold its own marker, an anchor inside a block must name the block, a fragment may only
come after fragments that exist, and no fragments may wait for one another. A `FragmentSet` carries
the proof that its fragments passed.
-/

namespace Graft

namespace Fragment

/-- Checks each fragment by itself and against the markers `seen` before it. -/
def checkEach (seen : List Text) : List Fragment → Except DefinitionError Unit
  | [] => .ok ()
  | f :: fs =>
    if Text.allBlank f.marker then .error .blankMarker
    else if f.marker.elem (.char '\n') then .error (.markerLines f.marker)
    else if seen.elem f.marker then .error (.duplicateMarker f.marker)
    else if f.template.contains f.marker then .error (.ownMarker f.marker)
    else if f.anchor.isBlock && Text.allBlank (f.anchor.block.getD []) then
      .error (.namelessBlock f.marker)
    else checkEach (f.marker :: seen) fs

/-- Checks one fragment, among fragments of distinct markers, against all of them. -/
def checkRelations (declared : List Fragment) (f : Fragment) : Except DefinitionError Unit :=
  match declared.find? fun other => other.marker != f.marker && other.marker.contains f.marker with
  | some other => .error (.markerInside f.marker other.marker)
  | none =>
    match f.after.find? fun m => !(declared.map (·.marker)).elem m with
    | some m => .error (.unknownAfter f.marker m)
    | none => .ok ()

/-- Checks fragments that are to be used together. -/
def checkAll (fs : List Fragment) : Except DefinitionError Unit := do
  checkEach [] fs
  fs.forM (checkRelations fs)
  let _ ← insertionOrder fs (fs.map (·.marker))
  return ()

/-- A check that finds no fault is passed. -/
theorem checkAll_eq_ok {fs : List Fragment} (h : (checkAll fs).isOk = true) :
    checkAll fs = .ok () := by
  cases hc : checkAll fs with
  | ok => rfl
  | error e => simp [hc, Except.isOk, Except.toBool] at h

end Fragment

/-- Fragments that were checked together. -/
structure FragmentSet where
  /-- The fragments in declaration order. -/
  fragments : List Fragment
  /-- They passed the check. -/
  checked : Fragment.checkAll fragments = .ok ()

namespace FragmentSet

/-- The fragments as a set, if they pass the check. -/
def ofList (fs : List Fragment) : Except DefinitionError FragmentSet :=
  match h : Fragment.checkAll fs with
  | .ok () => .ok ⟨fs, h⟩
  | .error e => .error e

/-- The markers in declaration order. -/
def markers (set : FragmentSet) : List Text :=
  set.fragments.map (·.marker)

/-- The fragment of a marker. -/
def get? (set : FragmentSet) (marker : Text) : Option Fragment :=
  set.fragments.find? (·.marker == marker)

/-- The fragments whose markers are listed, in the order in which they are inserted. -/
def insertionOrder (set : FragmentSet) (markers : List Text) :
    Except DefinitionError (List Fragment) :=
  Fragment.insertionOrder set.fragments markers

/-- The fragments of a set made from a list are those of the list. -/
theorem fragments_of_ofList {fs : List Fragment} {set : FragmentSet} (h : ofList fs = .ok set) :
    set.fragments = fs := by
  unfold ofList at h
  split at h
  · cases h
    rfl
  · cases h

end FragmentSet

end Graft
