import Graft.Edit.Span

/-!
# Removal

Every span of a fragment is cut out of the document, the last one first, so that the indices of the
others stay right. A cut may take one line feed more than the span: the one that made a blank line
before a fragment at the end of its surroundings, or else the one that made a blank line after a
fragment that started a line. If any occurrence of the marker has no span, nothing is removed.
-/

namespace Graft

/-- Whether the character at index `i` is a line feed. -/
def isLineFeedAt (t : Text) (i : Nat) : Bool :=
  t[i]? == some (.char '\n')

namespace Span

/-- What a cut takes out: the span with the separating line feed that goes with it. -/
def widen (s : Span) (document : Text) : Nat × Nat :=
  let endsBlank := decide (document.length ≤ s.stop) || isLineFeedAt document s.stop
  if 2 ≤ s.start && Text.slice document (s.start - 2) s.start == [.char '\n', .char '\n'] &&
      endsBlank then
    (s.start - 1, s.stop)
  else if isLineFeedAt document s.stop && (s.start == 0 || isLineFeedAt document (s.start - 1)) then
    (s.start, s.stop + 1)
  else (s.start, s.stop)

/-- The document without the span and its separator. -/
def cut (document : Text) (s : Span) : Text :=
  let (start, stop) := s.widen document
  document.take start ++ document.drop stop

end Span

/-- The document without all occurrences of a fragment. -/
def remove (document : Text) (f : Fragment) : Except Unbounded Text :=
  (fun spans => spans.reverse.foldl Span.cut document) <$> spans document f

end Graft
