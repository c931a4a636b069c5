import Graft.Text.Basic
import Graft.Text.Word

/-!
# Templates

A template is text with placeholders: a dollar sign and a name, or a dollar sign and a name between
braces. Two dollar signs stand for one. `Template.fill` replaces the placeholders from left to right
and stops at the first one that is malformed or has no value.

Where a name ends is a parameter of `placeholder?`, since the place that fills templates and the
place that recognises filled ones do not agree on it: names are of the basic alphabet when filling,
but run on through word characters of every script when recognising.
-/

namespace Graft

namespace Template

/-- Why a template cannot be filled. -/
inductive Problem where
  /-- There is no value for this name. -/
  | missing (name : Text)
  /-- The dollar sign before this index starts no placeholder. -/
  | malformed (index : Nat)
  deriving DecidableEq, Repr

/-- The name at the start of a text, if one starts there. -/
def name? (part : CodePoint → Bool) : Text → Option Text
  | [] => none
  | c :: r => if Text.isIdentifierStart c then some (c :: r.takeWhile part) else none

/-- The name that the text after a dollar sign gives, and how many characters it takes. -/
def placeholder? (part : CodePoint → Bool) (afterDollar : Text) : Option (Text × Nat) :=
  match afterDollar with
  | .char '\x7b' :: r =>
    match name? part r with
    | some name =>
      if r[name.length]? == some (.char '\x7d') then some (name, name.length + 2) else none
    | none => none
  | r => (name? part r).map fun name => (name, name.length)

/-- The text after its first `skip` characters, filled; `index` is the index of the first one. -/
def fillSkipping (value? : Text → Option Text) : Nat → Nat → Text → Except Problem Text
  | _, _, [] => .ok []
  | skip + 1, index, _ :: r => fillSkipping value? skip (index + 1) r
  | 0, index, c :: r =>
    if c = .char '$' then
      if r.head? == some (.char '$') then (.char '$' :: ·) <$> fillSkipping value? 1 (index + 1) r
      else
        match placeholder? Text.isIdentifierPart r with
        | none => .error (.malformed (index + 1))
        | some (name, size) =>
          match value? name with
          | none => .error (.missing name)
          | some value => (value ++ ·) <$> fillSkipping value? size (index + 1) r
    else (c :: ·) <$> fillSkipping value? 0 (index + 1) r

/-- The template with every placeholder replaced by its value. -/
def fill (value? : Text → Option Text) (template : Text) : Except Problem Text :=
  fillSkipping value? 0 0 template

/-- The parts of a text between its placeholders, names running through `part`. -/
def partsSkipping (part : CodePoint → Bool) : Nat → Text → List Text
  | _, [] => [[]]
  | skip + 1, _ :: r => partsSkipping part skip r
  | 0, c :: r =>
    match if c = .char '$' then placeholder? part r else none with
    | some (_, size) => [] :: partsSkipping part size r
    | none =>
      match partsSkipping part 0 r with
      | [] => [[c]]
      | p :: ps => (c :: p) :: ps

/-- The parts of a text between its placeholders; there is always at least one. -/
def parts (part : CodePoint → Bool) (t : Text) : List Text :=
  partsSkipping part 0 t

end Template

end Graft
