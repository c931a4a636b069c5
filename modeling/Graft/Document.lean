import Graft.Breakdown
import Graft.Text.Encoding

/-!
# Documents

A document is the text of a file with line feeds alone for line breaks, and whether it is written
back with a carriage return before each. The break of most lines decides: a file of which half the
lines or fewer end in a carriage return and a line feed is written with line feeds.
-/

namespace Graft

/-- The text of a file. -/
structure Document where
  /-- The text that was read. -/
  loaded : Text
  /-- The text as it is now. -/
  text : Text
  /-- Whether a carriage return goes before each line feed in the file. -/
  crlf : Bool
  deriving DecidableEq, Repr

/-- Why there is no document. -/
inductive ReadError where
  /-- There is no such file. -/
  | missing (path : Path)
  /-- The file cannot be read, or it is no text. -/
  | unreadable (path : Path) (reason : Text)
  deriving DecidableEq, Repr

namespace ReadError

/-- The error in words. -/
def message : ReadError → Text
  | missing path => path.toText ++ " does not exist".toText
  | unreadable path reason =>
    "could not read ".toText ++ path.toText ++ ": ".toText ++ reason

end ReadError

namespace Document

/-- The text with every pair of a carriage return and a line feed replaced by a line feed. -/
def withLineFeeds : Text → Text
  | [] => []
  | .char '\r' :: .char '\n' :: r => .char '\n' :: withLineFeeds r
  | c :: r => c :: withLineFeeds r

/-- The text with a carriage return put before every line feed. -/
def withCarriageReturns : Text → Text
  | [] => []
  | c :: r => if c = .char '\n' then .char '\r' :: .char '\n' :: withCarriageReturns r
    else c :: withCarriageReturns r

/-- Whether more than half of the line feeds follow a carriage return. -/
def isMostlyCrlf (content : Text) : Bool :=
  Text.count [.char '\n'] content < 2 * Text.count [.char '\r', .char '\n'] content

/-- The document in a file with some content. -/
def ofContent (content : Text) : Document :=
  let text := withLineFeeds content
  ⟨text, text, isMostlyCrlf content⟩

/-- Whether the text is not the one that was read. -/
def isChanged (doc : Document) : Bool :=
  doc.text ≠ doc.loaded

/-- The content of a file for a text. -/
def serialize (crlf : Bool) (text : Text) : Text :=
  if crlf then withCarriageReturns text else text

/-- The content of the file for the text as it is now. -/
def content (doc : Document) : Text :=
  serialize doc.crlf doc.text

/-- The document at a path. -/
def read (d : Disk) (path : Path) : Answer ReadError Document :=
  match d.look path with
  | .error e => .error (.os e)
  | .ok (some (.file _)) =>
    match d.fileAt path with
    | .error e => .ok (.error (.unreadable path e.message))
    | .ok f =>
      match Encoding.decode f.content with
      | none => .ok (.error (.unreadable path Encoding.undecodable))
      | some content => .ok (.ok (ofContent content))
  | .ok _ => .ok (.error (.missing path))

end Document

end Graft
