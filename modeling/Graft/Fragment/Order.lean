import Graft.Fragment.Basic

/-!
# Order of insertion

A fragment has to be inserted after the fragments it names in `after`, and after any other fragment
that introduces the block it goes into. `insertionOrder` sorts chosen fragments accordingly: again
and again it takes the first declared one that waits for nobody. Only chosen fragments are waited
for. It fails exactly when some are left that all wait for one another.
-/

namespace Graft

namespace Fragment

/-- Whether `f` has to come after `other`, both being among declared fragments. -/
def waitsFor (f other : Fragment) : Bool :=
  f.after.elem other.marker ||
    (f.anchor.isBlock && other.marker != f.marker && other.block == f.anchor.block)

/-- Whether all fragments that `f` waits for are out of the way. -/
def isReady (pending : List Fragment) (f : Fragment) : Bool :=
  pending.all fun other => !f.waitsFor other

/-- The pending fragments in order, taking at most `fuel` of them. -/
def takeReady : Nat → List Fragment → Except DefinitionError (List Fragment)
  | _, [] => .ok []
  | 0, pending => .error (.cycle (pending.map (·.marker)))
  | fuel + 1, pending =>
    match pending.find? (isReady pending) with
    | some f => (f :: ·) <$> takeReady fuel (pending.erase f)
    | none => .error (.cycle (pending.map (·.marker)))

/-- The declared fragments whose markers are listed, in the order in which they are inserted. -/
def insertionOrder (declared : List Fragment) (markers : List Text) :
    Except DefinitionError (List Fragment) :=
  let chosen := declared.filter fun f => markers.elem f.marker
  takeReady chosen.length chosen

end Fragment

end Graft
