import Graft.Brace.Basic
import Graft.Fragment.Basic
import Graft.Text.Word

/-!
# Insertion

A fragment whose marker is not in the document is put at its anchor. Inside a block it comes first,
right below the header, one step further indented than the line of the header; a blank line keeps
it apart from declarations that follow, and what stood on the line of the header is pushed down. At
the end of the file it follows one blank line.

The header of a block is its name and blanks before a structural brace, the name not being the end
of a longer one. A block at the top level is preferred to nested blocks of the same name, and an
earlier block to a later one (`blockBrace?`).
-/

namespace Graft

/-- The marker of a fragment and the block that its anchor names but the document does not have. -/
structure AnchorMissing where
  /-- The name of the block. -/
  block : Text
  /-- The marker of the fragment. -/
  marker : Text
  deriving DecidableEq, Repr

/-- Why a fragment cannot be inserted. -/
inductive InsertionError where
  /-- The document has no block of the name that the anchor gives. -/
  | noBlock (missing : AnchorMissing)
  /-- The fragment cannot be rendered. -/
  | definition (cause : DefinitionError)
  deriving DecidableEq, Repr

namespace AnchorMissing

/-- The reason in words. -/
def message (e : AnchorMissing) : Text :=
  "could not find a '".toText ++ e.block ++ " \x7b' block for ".toText ++ Text.quoted e.marker ++
    "; manual edit required".toText

end AnchorMissing

namespace Insertion

/-- One step of indentation. -/
def indentation : Text := "    ".toText

/-- How many characters a header takes that starts here, its brace included. -/
def headerSize? (name t : Text) : Option Nat :=
  if name.isPrefixOf t then
    let rest := t.drop name.length
    let gap := (rest.takeWhile Text.isBlank).length
    if rest[gap]? == some (.char '\x7b') then some (name.length + gap + 1) else none
  else none

/-- The indices of the braces of headers, reading on behind each one found; `before` is the
character before the text and `index` the index of its first character. -/
def headerBraces (name : Text) : Nat → Option CodePoint → Nat → Text → List Nat
  | _, _, _, [] => []
  | skip + 1, _, index, c :: r => headerBraces name skip (some c) (index + 1) r
  | 0, before, index, c :: r =>
    let joined := before.any fun b => Text.isWord b || b == .char '.'
    match if joined then none else headerSize? name (c :: r) with
    | some size => (index + size - 1) :: headerBraces name (size - 1) (some c) (index + 1) r
    | none => headerBraces name 0 (some c) (index + 1) r

/-- The indices of the opening braces among `bs`, each with the depth it stands at. -/
def openDepths : Int → List BraceAt → List (Nat × Int)
  | _, [] => []
  | depth, ⟨i, .opening⟩ :: bs => (i, depth) :: openDepths (depth + 1) bs
  | depth, ⟨_, .closing⟩ :: bs => openDepths (depth - 1) bs

/-- The text with every line indented that is not blank; blank lines become empty. -/
def indent (margin t : Text) : Text :=
  Text.join [.char '\n'] ((Text.lines t).map fun line =>
    if Text.allBlank line then [] else margin ++ line)

end Insertion

open Insertion

/-- The index of the opening brace of the block of a name: the first one at the top level, or else
the first one. -/
def blockBrace? (document name : Text) : Option Nat :=
  let depths := openDepths 0 (braces document)
  let candidates := (headerBraces name 0 none 0 document).filterMap fun i =>
    depths.find? (·.1 == i)
  ((candidates.find? (·.2 == 0)).or candidates.head?).map (·.1)

/-- The document with a rendered fragment right below the header whose brace is at index `brace`. -/
def insertBelow (document rendered : Text) (brace : Nat) : Text :=
  let header := Text.slice document (Text.lineStart document brace) brace
  let inner := header.takeWhile Text.isBlank ++ indentation
  let block := .char '\n' :: indent inner rendered
  let rest := document.drop (brace + 1)
  let sameLine := rest.takeWhile (· ≠ .char '\n')
  document.take (brace + 1) ++
    if !Text.allBlank sameLine then
      block ++ [.char '\n', .char '\n'] ++ inner ++ rest.dropWhile Text.isIndent
    else if !Text.allBlank rest && (Text.trimLeft rest).head? != some (.char '\x7d') then
      block ++ .char '\n' :: rest
    else block ++ rest

/-- The document with a fragment inside the block that its anchor names. -/
def insertInside (document : Text) (f : Fragment) (versions : VersionSet) :
    Except InsertionError Text :=
  let name := f.anchor.block.getD []
  match blockBrace? document name with
  | none => .error (.noBlock ⟨name, f.marker⟩)
  | some brace =>
    match f.render versions with
    | .ok rendered => .ok (insertBelow document rendered brace)
    | .error e => .error (.definition e)

/-- The document with a fragment at its end. -/
def insertAtEnd (document : Text) (f : Fragment) (versions : VersionSet) :
    Except InsertionError Text :=
  let head := Text.trimRight document
  let separator := if head.isEmpty then [] else [.char '\n', .char '\n']
  match f.render versions with
  | .ok rendered => .ok (head ++ separator ++ rendered ++ [.char '\n'])
  | .error e => .error (.definition e)

/-- The document with a fragment at its anchor; one that holds the marker is left as it is. -/
def insert (document : Text) (f : Fragment) (versions : VersionSet) :
    Except InsertionError Text :=
  if document.contains f.marker then .ok document
  else if f.anchor.isBlock then insertInside document f versions
  else insertAtEnd document f versions

end Graft
