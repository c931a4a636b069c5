import Graft.Brace.Balance
import Graft.Fragment.Declaration

/-!
# Spans

A span is the part of a document that one occurrence of a fragment takes up. It is found from the
marker, never guessed:

- it starts at the start of the marker line, or at the marker itself if other text stands before it
  on that line;
- it takes the lines below the marker line that fit declaration lines of the template, each pattern
  at most once, and stops at the first line that fits none that is left;
- for a fragment that introduces a block it then passes over blank lines and takes the header of
  that block and everything through the partner of its brace;
- it ends with the line feed that follows, if one does.

`spanFrom` finds the first span at or after a position and `spans` all of them, one after the
other. An occurrence of the marker that is followed by nothing of the kind is refused, and nothing
is taken (`Unbounded`).
-/

namespace Graft

/-- The part of a document that one occurrence of a fragment takes up. -/
structure Span where
  /-- The index at which the span starts. -/
  start : Nat
  /-- The index at which the span has ended. -/
  stop : Nat
  /-- The number of declaration lines in the span. -/
  declarations : Nat
  deriving DecidableEq, Repr

/-- Why an occurrence of a marker has no span. -/
inductive Unbounded where
  /-- The block that the fragment introduces does not follow the marker on this line. -/
  | noBlock (marker : Text) (line : Nat) (block : Text)
  /-- The braces of the block that follows the marker on this line do not pair up. -/
  | openBlock (marker : Text) (line : Nat) (cause : Imbalance)
  /-- No declaration line follows the marker on this line. -/
  | noDeclarations (marker : Text) (line : Nat)
  deriving DecidableEq, Repr

namespace Unbounded

/-- The reason in words. -/
def message : Unbounded → Text
  | noBlock marker line block =>
    "marker ".toText ++ Text.quoted marker ++ " (line ".toText ++ Text.ofNat line ++
      ") is not followed by a '".toText ++ block ++ " \x7b' block; manual cleanup required".toText
  | openBlock marker line cause =>
    "block after marker ".toText ++ Text.quoted marker ++ " (line ".toText ++ Text.ofNat line ++
      ") cannot be bounded: ".toText ++ cause.message
  | noDeclarations marker line =>
    "marker ".toText ++ Text.quoted marker ++ " (line ".toText ++ Text.ofNat line ++
      ") is not followed by any declaration lines; manual cleanup required".toText

end Unbounded

namespace Span

/-- The text of the span. -/
def text (s : Span) (document : Text) : Text :=
  Text.slice document s.start s.stop

/-- The lines below the line that ends at index `stop`. -/
def linesBelow (document : Text) (stop : Nat) : List Text :=
  if stop < document.length then Text.splitLines (document.drop (stop + 1)) else []

/-- Takes lines as long as each fits a pattern that is left, and uses up the first one it fits:
the index at which the lines taken end, and how many they are. -/
def takeDeclarations : List Declaration.Pattern → Nat → List Text → Nat × Nat
  | _, stop, [] => (stop, 0)
  | patterns, stop, line :: below =>
    match patterns.find? (Declaration.fits · line) with
    | none => (stop, 0)
    | some _ =>
      let (last, taken) := takeDeclarations (patterns.eraseP (Declaration.fits · line))
        (stop + 1 + line.length) below
      (last, taken + 1)

/-- The index of the brace if a text is the name of a block, indentation and the brace. -/
def braceAfterName? (name t : Text) : Option Nat :=
  if name.isPrefixOf t then
    let rest := t.drop name.length
    let gap := (rest.takeWhile Text.isIndent).length
    if rest[gap]? == some (.char '\x7b') then some (name.length + gap) else none
  else none

/-- The index of the brace if a text starts with the header of a block, indented or not. -/
def headerBrace? (name : Text) : Text → Option Nat
  | [] => none
  | c :: r =>
    match if Text.isIndent c then headerBrace? name r else none with
    | some i => some (i + 1)
    | none => braceAfterName? name (c :: r)

/-- The index of the first line at or after index `i`, where a line starts, that is not blank. -/
def skipBlankLines : Nat → List Text → Nat
  | i, [] => i
  | i, line :: below =>
    if Text.allBlank line && !below.isEmpty then skipBlankLines (i + line.length + 1) below
    else i

/-- The index behind the block that follows the line that ends at index `stop`. -/
def blockStop (document : Text) (f : Fragment) (line stop : Nat) (block : Text) :
    Except Unbounded Nat :=
  let header := skipBlankLines (stop + 1) (linesBelow document stop)
  match headerBrace? block (document.drop header) with
  | none => .error (.noBlock f.marker line block)
  | some i =>
    match closeOf document (header + i) with
    | .ok close => .ok (close + 1)
    | .error cause => .error (.openBlock f.marker line cause)

/-- The span of the occurrence of the marker at index `index`. -/
def ofMarker (document : Text) (f : Fragment) (index : Nat) : Except Unbounded Span :=
  let lineStart := Text.lineStart document index
  let start := if Text.allBlank (Text.slice document lineStart index) then lineStart else index
  let line := (Place.of document index).line
  let first := Text.lineEnd document index
  let (last, taken) := takeDeclarations f.patterns first (linesBelow document first)
  let stop : Except Unbounded Nat :=
    match f.block with
    | some (c :: name) => blockStop document f line last (c :: name)
    | _ => if taken = 0 then .error (.noDeclarations f.marker line) else .ok last
  match stop with
  | .error e => .error e
  | .ok stop => .ok ⟨start, if document[stop]? == some (.char '\n') then stop + 1 else stop, taken⟩

end Span

/-- The first span of a fragment whose marker stands at index `pos` or later. -/
def spanFrom (document : Text) (f : Fragment) (pos : Nat) : Except Unbounded (Option Span) :=
  match Text.searchFrom f.marker document pos with
  | none => .ok none
  | some index => some <$> Span.ofMarker document f index

/-- The spans of a fragment from index `pos` on, at most `fuel` of them. -/
def spansFrom (document : Text) (f : Fragment) : Nat → Nat → Except Unbounded (List Span)
  | 0, _ => .ok []
  | fuel + 1, pos =>
    match spanFrom document f pos with
    | .error e => .error e
    | .ok none => .ok []
    | .ok (some span) => (span :: ·) <$> spansFrom document f fuel span.stop

/-- All spans of a fragment, each from the end of the one before it. Every span ends behind the
position it is looked for from, so there are no more than the document has characters. -/
def spans (document : Text) (f : Fragment) : Except Unbounded (List Span) :=
  spansFrom document f (document.length + 1) 0

end Graft
