import Graft.Text.CodePoint

/-!
# Text as a list of code points

A text is the list of its code points, so that an index, a length and a column all count code
points and a proof can recurse on the text itself. This module holds the searches and cuts that
the rest of the library is written with:

- `Text.search` finds the first occurrence of a pattern, `Text.searchFrom` the first at or after
  a position; the empty pattern occurs everywhere, also at the very end.
- `Text.count` counts occurrences that do not overlap, from left to right.
- `Text.lineStart` and `Text.lineEnd` bound the line that holds a position. Only a line feed ends
  a line here; the wider set of line breaks is in `Graft.Text.Blank`.
- `Text.split` cuts at every occurrence of a character and always gives at least one piece;
  `Text.splitLines` cuts at every line feed.
-/

namespace Graft

/-- A text is the list of its code points. -/
abbrev Text := List CodePoint

end Graft

namespace String

/-- The text of a string. -/
def toText (s : String) : Graft.Text :=
  s.toList.map .char

@[simp] theorem toText_inj {s t : String} : s.toText = t.toText ↔ s = t := by
  rw [toText, toText, List.map_inj_right fun _ _ h => Graft.CodePoint.char.inj h, toList_inj]

theorem toText_ofList (cs : List Char) : (ofList cs).toText = cs.map .char := by
  rw [toText, toList_ofList]

theorem toText_append (s t : String) : (s ++ t).toText = s.toText ++ t.toText := by
  rw [toText, toList_append, List.map_append, toText, toText]

end String

namespace Graft

namespace Text

/-- What all code points of a text have to satisfy is decided one by one, and not over all the
code points there are. -/
instance (t : Text) (p : CodePoint → Prop) [DecidablePred p] : Decidable (∀ c ∈ t, p c) :=
  List.decidableBAll p t

/-- `slice t i j` is the part of `t` from index `i` up to, not including, index `j`. -/
def slice (t : Text) (i j : Nat) : Text :=
  (t.take j).drop i

/-- The index of the first occurrence of `p`, if there is one. -/
def search (p : Text) : Text → Option Nat
  | [] => if p.isEmpty then some 0 else none
  | c :: r => if p.isPrefixOf (c :: r) then some 0 else (search p r).map (· + 1)

/-- The index of the first occurrence of `p` that starts at `pos` or later. -/
def searchFrom (p t : Text) (pos : Nat) : Option Nat :=
  if pos ≤ t.length then (search p (t.drop pos)).map (· + pos) else none

/-- Whether `p` occurs in `t`. -/
def contains (t p : Text) : Bool :=
  (search p t).isSome

/-- Occurrences of a nonempty pattern after skipping `skip` characters of the last one found. -/
def countSkipping (p : Text) : Nat → Text → Nat
  | _, [] => 0
  | 0, c :: r =>
    if p.isPrefixOf (c :: r) then 1 + countSkipping p (p.length - 1) r else countSkipping p 0 r
  | skip + 1, _ :: r => countSkipping p skip r

/-- The number of occurrences of `p` that do not overlap, counted from the left.
The empty pattern occurs once before every character and once at the end. -/
def count (p t : Text) : Nat :=
  if p.isEmpty then t.length + 1 else countSkipping p 0 t

/-- The index at which the line holding index `i` starts. -/
def lineStart (t : Text) (i : Nat) : Nat :=
  let before := t.take i
  before.length - (before.reverse.takeWhile (· ≠ .char '\n')).length

/-- The index of the line feed that ends the line holding index `i`, or the length of the text. -/
def lineEnd (t : Text) (i : Nat) : Nat :=
  i + ((t.drop i).takeWhile (· ≠ .char '\n')).length

/-- The pieces of a text, cut at every `sep`; a text that ends in one has an empty last piece. -/
def split (sep : CodePoint) : Text → List Text
  | [] => [[]]
  | c :: r =>
    if c = sep then [] :: split sep r
    else
      match split sep r with
      | [] => [[c]]
      | l :: ls => (c :: l) :: ls

/-- The lines of a text, cut at every line feed. -/
def splitLines (t : Text) : List Text :=
  split (.char '\n') t

/-- Texts joined with `sep` between neighbours. -/
def join (sep : Text) : List Text → Text
  | [] => []
  | [t] => t
  | t :: ts => t ++ sep ++ join sep ts

/-- The part before the first `c` and, if there is a `c`, the part after it. -/
def cutAt (c : CodePoint) : Text → Text × Option Text
  | [] => ([], none)
  | d :: r =>
    if d = c then ([], some r)
    else
      let (before, after) := cutAt c r
      (d :: before, after)

/-- The digit of a value. -/
def digit (n : Nat) : CodePoint :=
  .char (Nat.digitChar n)

/-- The decimal digits of a number, without leading zeros. -/
def ofNat (n : Nat) : Text :=
  (Nat.toDigits 10 n).map .char

/-- The decimal digits of an integer, after a minus sign if it is negative. -/
def ofInt : Int → Text
  | .ofNat n => ofNat n
  | .negSucc n => .char '-' :: ofNat (n + 1)

/-- The text with `c` put before it until it has at least `width` characters. -/
def padLeft (width : Nat) (c : CodePoint) (t : Text) : Text :=
  List.replicate (width - t.length) c ++ t

/-- The text with `c` put after it until it has at least `width` characters. -/
def padRight (width : Nat) (c : CodePoint) (t : Text) : Text :=
  t ++ List.replicate (width - t.length) c

/-- The order of texts by the code points of their characters; a prefix comes first. -/
def before : Text → Text → Bool
  | _, [] => false
  | [], _ :: _ => true
  | c :: r, d :: s => c.toNat < d.toNat || (c == d && before r s)

@[simp] theorem slice_zero (t : Text) (j : Nat) : slice t 0 j = t.take j := rfl

@[simp] theorem splitLines_nil : splitLines [] = [[]] := rfl

@[simp] theorem splitLines_lineFeed (r : Text) :
    splitLines (.char '\n' :: r) = [] :: splitLines r := rfl

/-- Cutting a text never gives the empty list. -/
theorem split_ne_nil (sep : CodePoint) (t : Text) : split sep t ≠ [] := by
  cases t with
  | nil => simp [split]
  | cons c r =>
    unfold split
    split
    · simp
    · split <;> simp

/-- Joining the pieces gives the text back. -/
theorem join_split (sep : CodePoint) (t : Text) : join [sep] (split sep t) = t := by
  induction t with
  | nil => rfl
  | cons c r ih =>
    unfold split
    split
    · next h =>
      subst h
      cases hl : split c r with
      | nil => exact absurd hl (split_ne_nil c r)
      | cons l ls =>
        rw [hl] at ih
        simp [join, ih]
    · split
      · next hl => exact absurd hl (split_ne_nil sep r)
      · next l ls hl =>
        rw [hl] at ih
        cases ls with
        | nil => simpa [join] using ih
        | cons m ms => simpa [join] using ih

/-- What is in a joined text is in one of the pieces, or between two of them. -/
theorem mem_join {sep : Text} {ts : List Text} {c : CodePoint} (h : c ∈ join sep ts) :
    c ∈ sep ∨ ∃ t ∈ ts, c ∈ t := by
  fun_induction join sep ts with
  | case1 => cases h
  | case2 t => exact .inr ⟨t, List.mem_singleton_self t, h⟩
  | case3 t ts _ ih =>
    rcases List.mem_append.1 h with h | h
    · rcases List.mem_append.1 h with h | h
      · exact .inr ⟨t, List.mem_cons_self, h⟩
      · exact .inl h
    · exact (ih h).imp_right fun ⟨u, hu, hc⟩ => ⟨u, List.mem_cons_of_mem t hu, hc⟩

/-- Cutting into lines never gives the empty list. -/
theorem splitLines_ne_nil (t : Text) : splitLines t ≠ [] :=
  split_ne_nil (.char '\n') t

/-- Joining the lines with line feeds gives the text back. -/
theorem join_splitLines (t : Text) : join [.char '\n'] (splitLines t) = t :=
  join_split (.char '\n') t

end Text

end Graft
