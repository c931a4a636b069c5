import Graft.Fragment.Basic

/-!
# Declaration lines

A declaration line is a keyword and a quoted value, the value possibly in parentheses, with nothing
but indentation around them. The declaration lines at the head of a template become patterns: a line
of a document fits a pattern when it is the template line with some text free of quotes in place of
each placeholder, whatever the indentation and the blanks at the end.
-/

namespace Graft

namespace Declaration

/-- Whether nothing is left but at most one line feed. -/
def atEnd (t : Text) : Bool :=
  t == [] || t == [.char '\n']

/-- The text without the indentation at its start. -/
def dropIndent (t : Text) : Text :=
  t.dropWhile Text.isIndent

/-- The text without one leading `c`, if it has one. -/
def dropOne (c : CodePoint) : Text → Text
  | [] => []
  | d :: r => if d = c then r else d :: r

/-- Whether a character may stand inside the quotes of a declaration. -/
def isValueChar (c : CodePoint) : Bool :=
  c != .char '\'' && c != .char '"' && c != .char '\n'

/-- Whether the text is a quoted value and then, at most, a closing parenthesis. -/
def endsAfterValue : Text → Bool
  | [] => false
  | quote :: r =>
    (quote == .char '\'' || quote == .char '"') &&
      match r.dropWhile isValueChar with
      | c :: s => c == quote && atEnd (dropIndent (dropOne (.char ')') (dropIndent s)))
      | [] => false

/-- Whether a line declares a value under a keyword. -/
def isDeclaration (line : Text) : Bool :=
  match dropIndent line with
  | [] => false
  | c :: r =>
    Text.isIdentifierStart c &&
      endsAfterValue (dropIndent (dropOne (.char '(') (dropIndent
        (r.dropWhile fun d => Text.isWord d || d == .char '.'))))

/-- The parts of a declaration line between its placeholders. -/
abbrev Pattern := List Text

/-- What is left of a text after passing over some value characters, the fewest first. -/
def gapRests : Text → List Text
  | [] => [[]]
  | c :: r => (c :: r) :: if isValueChar c then gapRests r else []

/-- Whether a text is the parts one after the other, with value characters between neighbours and
indentation after the last. -/
def fitsParts : Pattern → Text → Bool
  | [], t => t.all Text.isIndent
  | [p], t => p.isPrefixOf t && (t.drop p.length).all Text.isIndent
  | p :: ps, t => p.isPrefixOf t && (gapRests (t.drop p.length)).any (fitsParts ps)

/-- Whether a line of a document fits a pattern. -/
def fits (pattern : Pattern) (line : Text) : Bool :=
  fitsParts pattern (dropIndent line)

/-- The pattern of a declaration line of a template. -/
def patternOf (line : Text) : Pattern :=
  Template.parts Text.isWord (Text.trim line)

end Declaration

/-- The patterns of the declaration lines at the head of the template. -/
def Fragment.patterns (f : Fragment) : List Declaration.Pattern :=
  ((Text.lines (Text.trimLineFeeds f.template)).takeWhile Declaration.isDeclaration).map
    Declaration.patternOf

end Graft
