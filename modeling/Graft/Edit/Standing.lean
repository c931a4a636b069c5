import Graft.Edit.Span

/-!
# Standing

A fragment is absent from a document when its marker is, correct when the marker occurs once and its
span holds every required text, and stale otherwise: when the marker occurs more than once, when a
required text is missing from the span, or when there is no span.
-/

namespace Graft

/-- How a fragment stands in a document. -/
inductive Standing where
  /-- The marker does not occur. -/
  | absent
  /-- The marker occurs once, and its span holds all that is required. -/
  | correct
  /-- The marker occurs, but not so. -/
  | stale
  deriving DecidableEq, Repr

namespace Standing

/-- The standing in words. -/
def name : Standing → Text
  | absent => "absent".toText
  | correct => "correct_present".toText
  | stale => "stale_present".toText

/-- All standings. -/
def all : List Standing := [absent, correct, stale]

end Standing

/-- The required texts that the first span of a fragment does not hold; all of them if there is no
such span. -/
def missingTexts (document : Text) (f : Fragment) (versions : VersionSet) :
    Except DefinitionError (List Text) := do
  let required ← f.requiredTexts versions
  match spanFrom document f 0 with
  | .ok (some span) => return required.filter (!(span.text document).contains ·)
  | _ => return required

/-- How a fragment stands in a document. -/
def standing (document : Text) (f : Fragment) (versions : VersionSet) :
    Except DefinitionError Standing :=
  match Text.count f.marker document with
  | 0 => .ok .absent
  | 1 => (fun missing => if missing.isEmpty then .correct else .stale) <$>
      missingTexts document f versions
  | _ => .ok .stale

/-- How each fragment stands in a document, under its marker. -/
def standings (document : Text) (fragments : List Fragment) (versions : VersionSet) :
    Except DefinitionError (Table Standing) :=
  Table.ofEntries <$> fragments.mapM fun f => (f.marker, ·) <$> standing document f versions

end Graft
