import Graft.Text.Basic

/-!
# Blanks and line breaks

The characters that count as white space are those of Unicode's bidirectional types WS, B and S
and of category Zs, and the characters that break a line are a subset of them: besides line feed
and carriage return the vertical tab, the form feed, the three information separators U+001C to
U+001E, next line, and the line and paragraph separators.

`Text.trim` and its one-sided versions take blanks off; `Text.trimLineFeeds` takes off line feeds
only. `Text.lines` cuts at every line break, takes a carriage return with its line feed
as one break, and gives no empty line for a break at the very end. `isBlank_of_isLineBreak` states
that every line break is a blank.
-/

namespace Graft

namespace Text

/-- White space. -/
def isBlank (c : CodePoint) : Bool :=
  let n := c.toNat
  (0x09 ≤ n && n ≤ 0x0d) || (0x1c ≤ n && n ≤ 0x20) || n == 0x85 || n == 0xa0 || n == 0x1680 ||
    (0x2000 ≤ n && n ≤ 0x200a) || n == 0x2028 || n == 0x2029 || n == 0x202f || n == 0x205f ||
    n == 0x3000

/-- A character that ends a line. -/
def isLineBreak (c : CodePoint) : Bool :=
  let n := c.toNat
  (0x0a ≤ n && n ≤ 0x0d) || (0x1c ≤ n && n ≤ 0x1e) || n == 0x85 || n == 0x2028 || n == 0x2029

/-- Space or tab, the only characters taken for indentation inside a line. -/
def isIndent (c : CodePoint) : Bool :=
  c == .char ' ' || c == .char '\t'

/-- The text without the characters at its end that satisfy `p`. -/
def dropRight (p : CodePoint → Bool) (t : Text) : Text :=
  (t.reverse.dropWhile p).reverse

/-- The text without the blanks at its start. -/
def trimLeft (t : Text) : Text :=
  t.dropWhile isBlank

/-- The text without the blanks at its end. -/
def trimRight (t : Text) : Text :=
  dropRight isBlank t

/-- The text without the blanks at both ends. -/
def trim (t : Text) : Text :=
  trimRight (trimLeft t)

/-- The text without the line feeds at both ends. -/
def trimLineFeeds (t : Text) : Text :=
  dropRight (· == .char '\n') (t.dropWhile (· == .char '\n'))

/-- Whether a text holds nothing but blanks. -/
def allBlank (t : Text) : Bool :=
  t.all isBlank

/-- The lines of a text without their line breaks. -/
def lines : Text → List Text
  | [] => []
  | .char '\r' :: .char '\n' :: r => [] :: lines r
  | c :: r =>
    if isLineBreak c then [] :: lines r
    else
      match lines r with
      | [] => [[c]]
      | l :: ls => (c :: l) :: ls

/-- Every line break is a blank. -/
theorem isBlank_of_isLineBreak {c : CodePoint} (h : isLineBreak c = true) : isBlank c = true := by
  simp only [isLineBreak, isBlank, Bool.or_eq_true, Bool.and_eq_true, decide_eq_true_eq,
    beq_iff_eq] at *
  omega

/-- A text of blanks is one that trimming empties. -/
theorem trim_eq_nil_iff (t : Text) : trim t = [] ↔ allBlank t = true := by
  have drop_nil : ∀ s : Text, s.dropWhile isBlank = [] ↔ s.all isBlank = true := by
    intro s
    induction s with
    | nil => simp
    | cons c r ih => by_cases h : isBlank c = true <;> simp [h, ih]
  constructor
  · intro h
    have h1 : (trimLeft t).all isBlank = true := by
      have := (drop_nil (trimLeft t).reverse).1 (by simpa [trim, trimRight, dropRight] using h)
      simpa using this
    have h2 : trimLeft t = [] := by
      cases hd : trimLeft t with
      | nil => rfl
      | cons c r =>
        have hc : isBlank c = true := by
          rw [hd] at h1
          simp at h1
          exact h1.1
        have hne : t.dropWhile isBlank ≠ [] := by
          rw [show t.dropWhile isBlank = c :: r from hd]
          simp
        have := List.head_dropWhile_not (p := isBlank) (l := t) hne
        simp [trimLeft] at hd
        simp [hd, hc] at this
    exact (drop_nil t).1 h2
  · intro h
    have : trimLeft t = [] := (drop_nil t).2 h
    simp [trim, this, trimRight, dropRight]

end Text

end Graft
