import Graft.Fragment.Template
import Graft.Fragment.Versions
import Graft.Text.Blank
import Graft.Text.Quoted

/-!
# Fragments

A fragment is a piece of text that must stand in a document exactly once. Its first line is its
marker, by which it is found again; its body comes from a template that version values fill. An
anchor says where it goes when it has to be inserted: into a named block or at the end of the file.
A fragment may introduce a block of its own and may have to come after other fragments.

`Fragment.render` gives the text for a version set, `Fragment.requiredTexts` the texts that must
be found in it. Both fail when the template does, and `DefinitionError` lists this and every other
way in which definitions of fragments can be wrong.
-/

namespace Graft

/-- Where a fragment goes. -/
structure Anchor where
  /-- `block` for the inside of a block; any other kind means the end of the file. -/
  kind : Text
  /-- The name of the block. -/
  block : Option Text
  deriving DecidableEq, Repr

namespace Anchor

/-- The anchor inside the block of a name. -/
def inBlock (name : Text) : Anchor := ⟨"block".toText, some name⟩

/-- The anchor at the end of the file. -/
def endOfFile : Anchor := ⟨"eof".toText, none⟩

/-- Whether the anchor is the inside of a block. -/
def isBlock (a : Anchor) : Bool :=
  a.kind == "block".toText

/-- The anchor in words. -/
def describe (a : Anchor) : Text :=
  if a.isBlock then "inside '".toText ++ a.block.getD "None".toText ++ "' block".toText
  else "end of file".toText

end Anchor

/-- A piece of text that must stand in a document exactly once. -/
structure Fragment where
  /-- The line by which the fragment is found. -/
  marker : Text
  /-- The body, with placeholders for version values. -/
  template : Text
  /-- Where the fragment goes. -/
  anchor : Anchor
  /-- Texts that must be found in the fragment; none means every line of the body. -/
  required : List Text := []
  /-- The block that the fragment introduces; none means that it is made of declaration lines. -/
  block : Option Text := none
  /-- The markers of the fragments that this one comes after. -/
  after : List Text := []
  /-- What the fragment is for. -/
  description : Text := []
  deriving DecidableEq, Repr

/-- What can be wrong with definitions of fragments. -/
inductive DefinitionError where
  /-- The template of a fragment uses a version key that the set does not have. -/
  | missingVersion (marker key set : Text)
  /-- A dollar sign in a template starts no placeholder. -/
  | badPlaceholder (marker : Text) (line column : Nat)
  /-- A marker is empty or blank. -/
  | blankMarker
  /-- A marker has more than one line. -/
  | markerLines (marker : Text)
  /-- Two fragments have the same marker. -/
  | duplicateMarker (marker : Text)
  /-- A template holds the marker of its own fragment. -/
  | ownMarker (marker : Text)
  /-- A fragment goes into a block that has no name. -/
  | namelessBlock (marker : Text)
  /-- A marker occurs inside another one. -/
  | markerInside (marker other : Text)
  /-- A fragment comes after one that does not exist. -/
  | unknownAfter (marker other : Text)
  /-- Fragments wait for one another. -/
  | cycle (markers : List Text)
  deriving DecidableEq, Repr

namespace DefinitionError

/-- The error in words. -/
def message : DefinitionError → Text
  | missingVersion marker key set =>
    "fragment ".toText ++ Text.quoted marker ++ " needs version ".toText ++ Text.quoted key ++
      ", not in set ".toText ++ Text.quoted set
  | badPlaceholder marker line column =>
    "fragment ".toText ++ Text.quoted marker ++
      " has a bad placeholder: Invalid placeholder in string: line ".toText ++ Text.ofNat line ++
      ", col ".toText ++ Text.ofNat column
  | blankMarker => "fragment marker must not be blank".toText
  | markerLines marker => "fragment marker must be one line: ".toText ++ Text.quoted marker
  | duplicateMarker marker => "duplicate fragment marker: ".toText ++ Text.quoted marker
  | ownMarker marker =>
    "template of ".toText ++ Text.quoted marker ++ " contains its own marker".toText
  | namelessBlock marker =>
    "block anchor of ".toText ++ Text.quoted marker ++ " has no block name".toText
  | markerInside marker other =>
    "marker ".toText ++ Text.quoted marker ++ " is a substring of marker ".toText ++
      Text.quoted other
  | unknownAfter marker other =>
    Text.quoted marker ++ " is declared after unknown marker ".toText ++ Text.quoted other
  | cycle markers =>
    "fragment ordering cycle between ".toText ++ Text.join ", ".toText (markers.map Text.quoted)

end DefinitionError

namespace Fragment

/-- The template of a fragment filled with version values. The place of a bad placeholder counts
every line break of the template, and its column ends with the dollar sign. -/
def fill (f : Fragment) (versions : VersionSet) (template : Text) : Except DefinitionError Text :=
  match Template.fill versions.get? template with
  | .ok t => .ok t
  | .error (.missing key) => .error (.missingVersion f.marker key versions.name)
  | .error (.malformed index) =>
    let lines := Text.lines (template.take index)
    .error (.badPlaceholder f.marker (max 1 lines.length) ((lines.getLast?.getD []).length))

/-- The body of the fragment, without line feeds at either end. -/
def body (f : Fragment) (versions : VersionSet) : Except DefinitionError Text :=
  Text.trimLineFeeds <$> f.fill versions f.template

/-- The marker line and the body, without a line feed at the end. -/
def render (f : Fragment) (versions : VersionSet) : Except DefinitionError Text :=
  (fun body => f.marker ++ .char '\n' :: body) <$> f.body versions

/-- Whether a line says nothing of its own: it is blank or a lone brace. -/
def saysNothing (line : Text) : Bool :=
  let t := Text.trim line
  t == [] || t == [.char '\x7b'] || t == [.char '\x7d']

/-- The texts that must be found in the fragment: those it names, or else every line of its body
that is not blank or a lone brace. -/
def requiredTexts (f : Fragment) (versions : VersionSet) : Except DefinitionError (List Text) :=
  if f.required.isEmpty then
    (fun body => ((Text.lines body).filter (!saysNothing ·)).map Text.trim) <$> f.body versions
  else f.required.mapM (f.fill versions)

end Fragment

end Graft
