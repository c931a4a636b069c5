import Graft.Text.Encoding

/-!
# Paths

A path is a list of names and says where it starts: at the working directory, or at the root. A path
written with exactly two slashes in front keeps both. Names of one dot are dropped when a path is
read, names of two dots are kept, as what they mean depends on what is there.

A `Location` is a place in the tree of files, the names on the way from the root to it. A path
names a location from a working directory by its names alone (`Path.location`), two dots undoing
the name before them.

Names are texts. A system that keeps names as bytes tells a byte that is no text as a half of a
surrogate pair, one of those from U+DC80 on; no name has any other half (`CodePoint.isNameable`).
-/

namespace Graft

namespace CodePoint

/-- Whether a name can have a code point: a character, or a half that stands for a byte. -/
def isNameable (c : CodePoint) : Bool :=
  c.isChar || (0xdc80 ≤ c.toNat && c.toNat ≤ 0xdcff)

/-- How many bytes of a name a code point takes. -/
def nameSize : CodePoint → Nat
  | char c => c.utf8Size
  | lone _ => 1

theorem nameSize_pos (c : CodePoint) : 0 < c.nameSize := by
  cases c with
  | char c => exact c.utf8Size_pos
  | lone half => exact Nat.one_pos

theorem nameSize_le_four (c : CodePoint) : c.nameSize ≤ 4 := by
  cases c with
  | char c => exact c.utf8Size_le_four
  | lone half => exact Nat.le_add_left 1 3

end CodePoint

namespace Text

/-- How many bytes of a name a text takes. -/
def nameSize : Text → Nat
  | [] => 0
  | c :: r => c.nameSize + nameSize r

theorem length_le_nameSize (t : Text) : t.length ≤ t.nameSize := by
  induction t with
  | nil => exact Nat.le_refl 0
  | cons c r ih =>
    have hpos := c.nameSize_pos
    rw [List.length_cons, nameSize]
    omega

theorem nameSize_le (t : Text) : t.nameSize ≤ 4 * t.length := by
  induction t with
  | nil => exact Nat.le_refl 0
  | cons c r ih =>
    have hfour := c.nameSize_le_four
    rw [List.length_cons, nameSize]
    omega

end Text

/-- The names on the way from the root to a place in the tree of files. -/
abbrev Location := List Text

/-- Where a path starts. -/
inductive Path.Start where
  /-- At the working directory. -/
  | here
  /-- At the root. -/
  | root
  /-- At the root, and written with two slashes. -/
  | doubleRoot
  deriving DecidableEq, Repr

/-- A path. -/
structure Path where
  /-- Where it starts. -/
  start : Path.Start
  /-- The names in it, none of them empty or a single dot. -/
  parts : List Text
  deriving DecidableEq, Repr

namespace Path

/-- The name of the directory above. -/
def up : Text := [.char '.', .char '.']

/-- Where a path in writing starts. -/
def startOf : Text → Start
  | .char '/' :: .char '/' :: .char '/' :: _ => .root
  | .char '/' :: .char '/' :: _ => .doubleRoot
  | .char '/' :: _ => .root
  | _ => .here

/-- The path that a text writes. -/
def ofText (t : Text) : Path :=
  ⟨startOf t, (Text.split (.char '/') t).filter fun p => p ≠ [] ∧ p ≠ [.char '.']⟩

/-- The path in writing; the working directory itself is a dot. -/
def toText (p : Path) : Text :=
  match p.start with
  | .root => .char '/' :: Text.join [.char '/'] p.parts
  | .doubleRoot => .char '/' :: .char '/' :: Text.join [.char '/'] p.parts
  | .here => if p.parts.isEmpty then [.char '.'] else Text.join [.char '/'] p.parts

/-- The last name, empty if there is none. -/
def name (p : Path) : Text :=
  p.parts.getLast?.getD []

/-- The refusal to make a name beside a path that has none. -/
def namelessMessage (p : Path) : Text :=
  "PosixPath(".toText ++ Text.quoted p.toText ++ ") has an empty name".toText

/-- The path without its last name. -/
def parent (p : Path) : Path :=
  { p with parts := p.parts.dropLast }

/-- The path followed by one more name. -/
def child (p : Path) (name : Text) : Path :=
  { p with parts := p.parts ++ [name] }

/-- The path followed by another; a path from the root stands for itself. -/
def join (p q : Path) : Path :=
  match q.start with
  | .here => { p with parts := p.parts ++ q.parts }
  | _ => q

/-- The path with another last name. -/
def sibling (p : Path) (name : Text) : Path :=
  p.parent.child name

/-- The name behind the tilde that a path starts with, if it starts with one, and the names after
it. A tilde anywhere else is a character like others. -/
def afterTilde? (p : Path) : Option (Text × List Text) :=
  match p.start, p.parts with
  | .here, (.char '~' :: user) :: rest => some (user, rest)
  | _, _ => none

/-- Whether a path holds the null character, which no file system takes. -/
def hasNull (p : Path) : Bool :=
  p.parts.any (·.elem (.ofNat 0))

/-- The first code points of a path that no name has, if it holds any. -/
def unencodable? (p : Path) : Option Unencodable :=
  let t := p.toText
  (t.findIdx? (!·.isNameable)).map fun i => ⟨.utf8, i, (t.drop i).takeWhile (!·.isChar)⟩

/-- Whether the last name of a path is that of an entry, and not two dots or none at all. -/
def isEntry (p : Path) : Bool :=
  !p.name.isEmpty && p.name ≠ up

/-- One name further from a location, by the names alone. -/
def step (l : Location) (part : Text) : Location :=
  if part = up then l.dropLast else l ++ [part]

/-- The location that a path names from the working directory, by the names alone. -/
def location (here : Location) (p : Path) : Location :=
  p.parts.foldl step (if p.start = .here then here else [])

/-- The path from the root to a location. -/
def ofLocation (l : Location) : Path :=
  ⟨.root, l⟩

/-- The path to the location that a path names. -/
def resolve (here : Location) (p : Path) : Path :=
  ofLocation (p.location here)

/-- The path from one location to another below it, or else the path from the root. -/
def relative (base l : Location) : Path :=
  if base.isPrefixOf l then ⟨.here, l.drop base.length⟩ else ofLocation l

/-- A path with one more name has that name. -/
@[simp] theorem name_child (p : Path) (name : Text) : (p.child name).name = name := by
  simp [child, Path.name]

/-- Leaving a name that was added gives the path back. -/
@[simp] theorem parent_child (p : Path) (name : Text) : (p.child name).parent = p := by
  simp [child, parent]

end Path

end Graft
