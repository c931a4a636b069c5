import Graft.Text.Basic

/-!
# Structural braces

A brace counts as structure unless it stands in a string or a comment. The scanner reads the text
once from left to right. It is in code, in a comment that runs to the end of the line, in a comment
between `/*` and `*/`, in a string of one line, or in a string between three quotes; some characters
it only passes over, because the one before them has decided their meaning.

- A string of one line ends at its quote or at the line feed that leaves it unterminated, and a
  backslash in it hides the next character, whatever that is.
- A string between three quotes ends at the next three and knows no escapes.
- Whatever is not closed runs to the end of the text.

`braces` lists every structural brace with its index, in ascending order.
-/

namespace Graft

/-- A brace that opens or closes a block. -/
inductive Brace where
  /-- The brace that opens a block. -/
  | opening
  /-- The brace that closes a block. -/
  | closing
  deriving DecidableEq, Repr

/-- A brace and the index at which it stands. -/
structure BraceAt where
  /-- The index of the brace in its text. -/
  index : Nat
  /-- Which brace it is. -/
  brace : Brace
  deriving DecidableEq, Repr

namespace Brace

/-- The character of a brace. -/
def toChar : Brace → CodePoint
  | opening => .char '{'
  | closing => .char '}'

/-- The brace that a character is. -/
def ofChar? (c : CodePoint) : Option Brace :=
  if c = .char '{' then some opening else if c = .char '}' then some closing else none

end Brace

/-- What the scanner is reading. -/
inductive ScanMode where
  /-- Code, where braces count. -/
  | code
  /-- A comment up to the end of the line. -/
  | lineComment
  /-- A comment up to the next `*/`. -/
  | blockComment
  /-- A string of one line between quotes of one kind. -/
  | quoted (quote : CodePoint)
  /-- A string between three quotes of one kind. -/
  | tripled (quote : CodePoint)
  deriving DecidableEq, Repr

/-- What the scanner is reading and how many characters it passes over before it goes on. -/
structure ScanState where
  /-- What is being read. -/
  mode : ScanMode
  /-- How many characters are passed over first. -/
  skip : Nat
  deriving DecidableEq, Repr

namespace ScanState

/-- Reading code, with nothing to pass over. -/
def start : ScanState := ⟨.code, 0⟩

/-- Whether `c` opens a string. -/
def isQuote (c : CodePoint) : Bool :=
  c == .char '\'' || c == .char '"'

/-- The state after `c` when `rest` follows it. -/
def next (s : ScanState) (c : CodePoint) (rest : Text) : ScanState :=
  match s.skip with
  | skip + 1 => ⟨s.mode, skip⟩
  | 0 =>
    match s.mode with
    | .code =>
      if c = .char '/' && rest.head? == some (.char '/') then ⟨.lineComment, 1⟩
      else if c = .char '/' && rest.head? == some (.char '*') then ⟨.blockComment, 1⟩
      else if isQuote c then
        if [c, c].isPrefixOf rest then ⟨.tripled c, 2⟩ else ⟨.quoted c, 0⟩
      else ⟨.code, 0⟩
    | .lineComment => if c = .char '\n' then ⟨.code, 0⟩ else ⟨.lineComment, 0⟩
    | .blockComment =>
      if c = .char '*' && rest.head? == some (.char '/') then ⟨.code, 1⟩ else ⟨.blockComment, 0⟩
    | .quoted quote =>
      if c = .char '\\' then ⟨.quoted quote, 1⟩
      else if c = quote || c = .char '\n' then ⟨.code, 0⟩
      else ⟨.quoted quote, 0⟩
    | .tripled quote =>
      if c = quote && [quote, quote].isPrefixOf rest then ⟨.code, 2⟩ else ⟨.tripled quote, 0⟩

/-- The brace that the scanner finds in `c`: there is one only in code. -/
def brace? (s : ScanState) (c : CodePoint) : Option Brace :=
  if s = start then Brace.ofChar? c else none

/-- The structural braces of a text whose first character has index `i`. -/
def scan (s : ScanState) (i : Nat) : Text → List BraceAt
  | [] => []
  | c :: r =>
    match s.brace? c with
    | some b => ⟨i, b⟩ :: scan (s.next c r) (i + 1) r
    | none => scan (s.next c r) (i + 1) r

end ScanState

/-- The structural braces of `t` from index `start` on, the scan beginning in code there. -/
def bracesFrom (t : Text) (start : Nat) : List BraceAt :=
  ScanState.start.scan start (t.drop start)

/-- The structural braces of `t`. -/
def braces (t : Text) : List BraceAt :=
  bracesFrom t 0

end Graft
