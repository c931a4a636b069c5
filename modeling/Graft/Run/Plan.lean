import Graft.Edit.Removal
import Graft.Edit.Standing
import Graft.Fragment.Set
import Graft.Run.Failure

/-!
# Plans

What a run does to a text is settled before anything outside is touched. Stale fragments are taken
out in declaration order, then the fragments whose markers are missing are put in, in insertion
order. A text that comes out different is checked: its braces pair up, and every marker occurs once,
with all that its fragment requires (`Plan.validate`). A plan tells the states found, the actions
taken up to the first failure, and the text that results, if it is a new one.
-/

namespace Graft

/-- One thing done to a text. -/
inductive Action where
  /-- A stale fragment was taken out. -/
  | removedStale (marker : Text)
  /-- A fragment was put at its anchor. -/
  | added (marker : Text) (anchor : Anchor)
  /-- The text was not written, as nothing was to be. -/
  | nothingWritten
  deriving DecidableEq, Repr

namespace Action

/-- The action in words. -/
def describe : Action → Text
  | removedStale marker => "removed stale ".toText ++ Text.quoted marker
  | added marker anchor =>
    "added ".toText ++ Text.quoted marker ++ " (".toText ++ anchor.describe ++ ")".toText
  | nothingWritten => "dry run: nothing written".toText

end Action

/-- What a run does to a text. -/
structure Plan where
  /-- How each fragment stands in the text. -/
  states : Table Standing
  /-- Whether a fragment is stale, so that text is going to be removed. -/
  removes : Bool
  /-- Whether a marker is missing from the text as it is. -/
  adds : Bool
  /-- The actions up to the first failure. -/
  actions : List Action
  /-- The new text, if there is one. -/
  outcome : Except Failure (Option Text)

namespace Plan

/-- Takes fragments out of a text one after the other. -/
def removeAll (t : Text) : List Fragment → List Action × Except Failure Text
  | [] => ([], .ok t)
  | f :: fs =>
    match remove t f with
    | .error e => ([], .error (.unbounded e))
    | .ok t' =>
      let (actions, result) := removeAll t' fs
      (.removedStale f.marker :: actions, result)

/-- Puts fragments into a text one after the other. -/
def insertAll (versions : VersionSet) (t : Text) : List Fragment → List Action × Except Failure Text
  | [] => ([], .ok t)
  | f :: fs =>
    match insert t f versions with
    | .error e => ([], .error (.ofInsertion e))
    | .ok t' =>
      let (actions, result) := insertAll versions t' fs
      (.added f.marker f.anchor :: actions, result)

/-- The fragments that are stale, in declaration order. -/
def stale (set : FragmentSet) (states : Table Standing) : List Fragment :=
  set.fragments.filter fun f => states.get? f.marker == some .stale

/-- The markers that a text does not hold. -/
def missingMarkers (set : FragmentSet) (t : Text) : List Text :=
  set.markers.filter fun m => !t.contains m

/-- Puts the fragments whose markers are missing into a text. -/
def complete (set : FragmentSet) (versions : VersionSet) (t : Text) :
    List Action × Except Failure Text :=
  match set.insertionOrder (missingMarkers set t) with
  | .error e => ([], .error (.definition e))
  | .ok fs => insertAll versions t fs

/-- Takes out what is stale and puts in what is missing. -/
def edit (set : FragmentSet) (versions : VersionSet) (states : Table Standing) (t : Text) :
    List Action × Except Failure Text :=
  match removeAll t (stale set states) with
  | (actions, .error e) => (actions, .error e)
  | (actions, .ok t') =>
    let (more, result) := complete set versions t'
    (actions ++ more, result)

/-- Refuses a text in which a fragment is not found once and with all that it requires. -/
def validateEach (versions : VersionSet) (t : Text) : List Fragment → Except Failure Unit
  | [] => .ok ()
  | f :: fs =>
    match missingTexts t f versions with
    | .error e => .error (.definition e)
    | .ok missing =>
      if missing.isEmpty && Text.count f.marker t == 1 then validateEach versions t fs
      else .error (.unvalidated f.marker missing)

/-- Refuses a text that must not be written. -/
def validate (set : FragmentSet) (versions : VersionSet) (t : Text) : Except Failure Unit :=
  match balance t with
  | .error e => .error (.unbalanced e)
  | .ok () => validateEach versions t set.fragments

/-- What comes of an edited text: nothing if it is the old one, and else a text that is valid. -/
def settle (set : FragmentSet) (versions : VersionSet) (old new : Text) :
    Except Failure (Option Text) :=
  if new = old then .ok none
  else
    match validate set versions new with
    | .error e => .error e
    | .ok () => .ok (some new)

/-- The plan for a text, unless it is malformed or the fragments cannot be rendered. -/
def ofText (set : FragmentSet) (versions : VersionSet) (t : Text) : Except Failure Plan :=
  match balance t with
  | .error e => .error (.malformed e)
  | .ok () =>
    match standings t set.fragments versions with
    | .error e => .error (.definition e)
    | .ok states =>
      let (actions, result) := edit set versions states t
      .ok {
        states
        removes := !(stale set states).isEmpty
        adds := !(missingMarkers set t).isEmpty
        actions
        outcome :=
          match result with
          | .error e => .error e
          | .ok new => settle set versions t new }

end Plan

end Graft
