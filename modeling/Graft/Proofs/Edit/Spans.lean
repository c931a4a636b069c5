import Graft.Edit.Removal
import Graft.Proofs.Brace.Scan
import Graft.Proofs.Steps
import Graft.Proofs.Text.Blank
import Graft.Proofs.Text.Lines

/-!
# Where spans lie

The spans of a fragment are found one after the other, and each is looked for from the end of the
one before. That alone does not keep them apart, since a span starts where the line of its marker
does. What does is where spans end: behind the line feed of a line that is not empty, or at a
closing brace that has no line feed behind it, or at the end of the text (`Boundary`).

> `spans_apart`: spans come in order, do not overlap, and lie in the text; the line feed of a blank
> line before a span is not part of the span before it.
-/

namespace Graft

variable {t line : Text} {f : Fragment} {i j stop : Nat} {s : Span} {ss : List Span}

/-! ## Lines that fit -/

namespace Declaration

/-- A declaration line starts with its keyword. -/
theorem exists_dropIndent (h : isDeclaration line = true) :
    ∃ c rest, dropIndent line = c :: rest ∧ Text.isIdentifierStart c = true := by
  unfold isDeclaration at h
  split at h
  · cases h
  · next c rest hline => exact ⟨c, rest, hline, (Bool.and_eq_true_iff.1 h).1⟩

/-- No indentation stands before a keyword. -/
theorem dropIndent_cons {c : CodePoint} (hc : Text.isIdentifierStart c = true) (r : Text) :
    dropIndent (c :: r) = c :: r := by
  apply List.dropWhile_cons_of_neg
  intro hindent
  have hblank := Text.isBlank_of_isIndent hindent
  rw [Text.isBlank_of_isIdentifierStart hc] at hblank
  cases hblank

/-- Trimming takes the indentation before the keyword off. -/
theorem trim_eq_trimRight {c : CodePoint} {rest : Text} (hdrop : dropIndent line = c :: rest)
    (hc : Text.isIdentifierStart c = true) : Text.trim line = Text.trimRight (c :: rest) := by
  rw [Text.trim, ← Text.trimLeft_dropWhile_isIndent]
  show Text.trimRight (Text.trimLeft (dropIndent line)) = _
  rw [hdrop, Text.trimLeft, List.dropWhile_cons_of_neg (by simp [Text.isBlank_of_isIdentifierStart hc])]

/-- A declaration line, trimmed, starts with its keyword. -/
theorem exists_trim (h : isDeclaration line = true) :
    ∃ c r, Text.trim line = c :: r ∧ Text.isIdentifierStart c = true := by
  obtain ⟨c, rest, hdrop, hc⟩ := exists_dropIndent h
  exact ⟨c, Text.trimRight rest, by
    rw [trim_eq_trimRight hdrop hc, Text.trimRight_cons (Text.isBlank_of_isIdentifierStart hc)], hc⟩

/-- The pattern of a declaration line starts with a character that is no blank, as the keyword is in
its first part. -/
theorem exists_patternOf (h : isDeclaration line = true) :
    ∃ c part parts, Text.isBlank c = false ∧ patternOf line = (c :: part) :: parts := by
  obtain ⟨c, rest, htrim, hc⟩ := exists_trim h
  have hblank := Text.isBlank_of_isIdentifierStart hc
  have hdollar : c ≠ .char '$' := by
    rintro rfl
    cases hc
  rw [patternOf, htrim, Template.parts, Template.partsSkipping, if_neg hdollar]
  split
  · next h => cases h
  · split
    · exact ⟨c, [], [], hblank, rfl⟩
    · next part parts _ => exact ⟨c, part, parts, hblank, rfl⟩

theorem exists_of_mem_patterns {p : Pattern} (h : p ∈ f.patterns) :
    ∃ c part parts, Text.isBlank c = false ∧ p = (c :: part) :: parts := by
  obtain ⟨line, hline, rfl⟩ := List.mem_map.1 h
  exact exists_patternOf (List.all_eq_true.1 List.all_takeWhile line hline)

/-- A line that fits a pattern has the character that the pattern starts with. -/
theorem mem_of_fits {c : CodePoint} {part : Text} {parts : Pattern}
    (h : fits ((c :: part) :: parts) line = true) : c ∈ line := by
  have hprefix : (c :: part).isPrefixOf (dropIndent line) = true := by
    cases parts with
    | nil => exact (Bool.and_eq_true_iff.1 h).1
    | cons q qs =>
      rw [fits, fitsParts] at h
      · exact (Bool.and_eq_true_iff.1 h).1
      · simp
  exact (List.dropWhile_sublist _).subset
    ((List.isPrefixOf_iff_prefix.1 hprefix).subset List.mem_cons_self)

/-- A line that fits a declaration line of a template is not blank. -/
theorem allBlank_of_fits {p : Pattern} (hp : p ∈ f.patterns) (h : fits p line = true) :
    Text.allBlank line = false := by
  obtain ⟨c, part, parts, hc, rfl⟩ := exists_of_mem_patterns hp
  rw [Text.allBlank, List.all_eq_false]
  exact ⟨c, mem_of_fits h, by simp [hc]⟩

end Declaration

namespace Span

/-- The first of the lines below a place where a line ends, and the place where it ends. -/
theorem linesBelow_eq_cons {below : List Text} (h : linesBelow t stop = line :: below) :
    .char '\n' ∉ line ∧ t.drop (stop + 1) = line ++ t.drop (stop + 1 + line.length) ∧
      (stop + 1 + line.length = t.length ∨ t[stop + 1 + line.length]? = some (.char '\n')) ∧
      linesBelow t (stop + 1 + line.length) = below := by
  unfold linesBelow at h
  split at h
  · next hlt =>
    obtain ⟨hline, ⟨rfl, hrest⟩ | ⟨rest, hrest, hbelow⟩⟩ := Text.splitLines_eq_cons h
    · have hlength := congrArg List.length hrest
      rw [List.length_drop] at hlength
      have hend : stop + 1 + line.length = t.length := by omega
      refine ⟨hline, ?_, .inl hend, ?_⟩
      · rw [hend, List.drop_length, hrest, List.append_nil]
      · rw [linesBelow, if_neg (by omega)]
    · have hdrop : t.drop (stop + 1 + line.length) = .char '\n' :: rest := by
        rw [← List.drop_drop, hrest, List.drop_left]
      have hget : t[stop + 1 + line.length]? = some (.char '\n') := by
        rw [← List.head?_drop, hdrop, List.head?_cons]
      refine ⟨hline, by rw [hrest, hdrop], .inr hget, ?_⟩
      obtain ⟨hlt', -⟩ := List.getElem?_eq_some_iff.1 hget
      rw [linesBelow, if_pos hlt', ← List.drop_drop, hdrop]
      exact hbelow
  · cases h

/-- Where the lines that fit have ended: at the end of a line, which is not empty if any fits. -/
theorem takeDeclarations_eq {patterns : List Declaration.Pattern} {last taken : Nat}
    (hpatterns : ∀ p ∈ patterns, ∃ c part parts, Text.isBlank c = false ∧ p = (c :: part) :: parts)
    (hstop : stop = t.length ∨ t[stop]? = some (.char '\n'))
    (h : takeDeclarations patterns stop (linesBelow t stop) = (last, taken)) :
    stop ≤ last ∧ (last = t.length ∨ t[last]? = some (.char '\n')) ∧
      ((taken = 0 ∧ last = stop) ∨ ∃ i c, last = i + 1 ∧ t[i]? = some c ∧ c ≠ .char '\n') := by
  generalize hlines : linesBelow t stop = lines at h
  induction lines generalizing patterns stop taken with
  | nil =>
    unfold takeDeclarations at h
    cases h
    exact ⟨Nat.le_refl _, hstop, .inl ⟨rfl, rfl⟩⟩
  | cons line below ih =>
    obtain ⟨hbreak, hdrop, hend, hbelow⟩ := linesBelow_eq_cons hlines
    unfold takeDeclarations at h
    split at h
    · cases h
      exact ⟨Nat.le_refl _, hstop, .inl ⟨rfl, rfl⟩⟩
    · next p hp =>
      have hfits := List.find?_some hp
      obtain ⟨c, part, parts, -, rfl⟩ := hpatterns p (List.mem_of_find?_eq_some hp)
      have hne := List.ne_nil_of_mem (Declaration.mem_of_fits hfits)
      generalize hrec : takeDeclarations _ _ below = r at h
      cases h
      obtain ⟨hle, hlast, ⟨-, hstopped⟩ | hsolid⟩ :=
        ih (fun q hq => hpatterns q (List.mem_of_mem_eraseP hq)) hend hbelow hrec
      · -- this line is the last that fits, and its last character is no line feed
        obtain ⟨k, hk⟩ := Nat.exists_eq_add_of_lt (List.length_pos_iff.2 hne)
        have hlt : k < line.length := by omega
        have hget : t[stop + 1 + k]? = some ((line)[k]) := by
          rw [← List.getElem?_drop, hdrop, List.getElem?_append_left hlt,
            List.getElem?_eq_getElem hlt]
        refine ⟨by omega, hlast, .inr ⟨stop + 1 + k, (line)[k], by omega, hget, ?_⟩⟩
        intro heq
        exact hbreak (heq ▸ List.getElem_mem hlt)
      · exact ⟨by omega, hlast, .inr hsolid⟩

theorem le_skipBlankLines (i : Nat) (lines : List Text) : i ≤ skipBlankLines i lines := by
  induction lines generalizing i with
  | nil => exact Nat.le_refl _
  | cons line below ih =>
    unfold skipBlankLines
    split
    · have := ih (i + line.length + 1)
      omega
    · exact Nat.le_refl _

/-- A block ends with a closing brace. -/
theorem blockStop_eq_ok {n : Nat} {block : Text} (h : blockStop t f n stop block = .ok j) :
    ∃ close, j = close + 1 ∧ stop < close ∧ t[close]? = some (.char '}') := by
  unfold blockStop at h
  dsimp only at h
  split at h
  · cases h
  · next i hi =>
    split at h
    · next close hclose =>
      cases h
      obtain ⟨-, hlt, -, hget⟩ := getElem?_of_closeOf hclose
      have := le_skipBlankLines (stop + 1) (linesBelow t stop)
      exact ⟨close, rfl, by omega, hget⟩
    · cases h

end Span

/-! ## Where spans end -/

/-- A place where no span of a fragment that is looked for from there reaches back over: the start
of the text, its end, behind a closing brace, or below a line that is not empty. -/
inductive Boundary (t : Text) : Nat → Prop where
  | start : Boundary t 0
  | finish : Boundary t t.length
  | brace {i : Nat} (h : t[i]? = some (.char '}')) : Boundary t (i + 1)
  | line {i : Nat} {c : CodePoint} (h : t[i]? = some c) (hc : c ≠ .char '\n')
      (hbreak : t[i + 1]? = some (.char '\n')) : Boundary t (i + 2)

theorem Boundary.le_length (h : Boundary t i) : i ≤ t.length := by
  cases h with
  | start => exact Nat.zero_le _
  | finish => exact Nat.le_refl _
  | brace h => exact (List.getElem?_eq_some_iff.1 h).1
  | line _ _ hbreak => exact (List.getElem?_eq_some_iff.1 hbreak).1

/-- With the line feed that follows, if one does, a span ends at such a place. -/
theorem boundary_of_solid {c : CodePoint} (hc : c ≠ .char '\n') (hget : t[i]? = some c)
    (hend : c = .char '}' ∨ i + 1 = t.length ∨ t[i + 1]? = some (.char '\n')) :
    Boundary t (if t[i + 1]? == some (.char '\n') then i + 2 else i + 1) := by
  by_cases hbreak : t[i + 1]? = some (.char '\n')
  · rw [if_pos (beq_iff_eq.2 hbreak)]
    exact .line hget hc hbreak
  · rw [if_neg (by simpa using hbreak)]
    rcases hend with rfl | hlength | hline
    · exact .brace hget
    · rw [hlength]
      exact .finish
    · exact absurd hline hbreak

namespace Span

/-- A span starts on the line of its marker and ends behind that line. -/
theorem ofMarker_eq_ok (h : ofMarker t f i = .ok s) (hi : i < t.length) :
    s.start = (if Text.allBlank (Text.slice t (Text.lineStart t i) i) then Text.lineStart t i
      else i) ∧ Text.lineEnd t i ≤ s.stop ∧ Boundary t s.stop := by
  obtain ⟨line, below, hdrop, hend, -, hbelow⟩ := Text.exists_lineEnd t i
  -- the line of the marker ends where the text does or at a line feed
  have hfirst : Text.lineEnd t i = t.length ∨ t[Text.lineEnd t i]? = some (.char '\n') := by
    rw [hend]
    rcases hbelow with rfl | hbelow
    · have hlength := congrArg List.length hdrop
      rw [List.length_drop, List.append_nil] at hlength
      left
      omega
    · right
      rw [← List.getElem?_drop, hdrop, List.getElem?_append_right (Nat.le_refl _), Nat.sub_self,
        ← List.head?_eq_getElem?, hbelow]
  unfold ofMarker at h
  dsimp only at h
  generalize htaken : takeDeclarations f.patterns (Text.lineEnd t i) _ = r at h
  obtain ⟨last, taken⟩ := r
  obtain ⟨hle, hlast, hsolid⟩ :=
    takeDeclarations_eq (fun _ => Declaration.exists_of_mem_patterns) hfirst htaken
  split at h
  · cases h
  · next stop hstop =>
    cases h
    -- what comes last before the end is a closing brace or the end of a line that fits
    obtain ⟨k, c, rfl, hget, hc, hik, hkend⟩ : ∃ k c, stop = k + 1 ∧ t[k]? = some c ∧
        c ≠ .char '\n' ∧ Text.lineEnd t i ≤ k + 1 ∧
        (c = .char '}' ∨ k + 1 = t.length ∨ t[k + 1]? = some (.char '\n')) := by
      split at hstop
      · obtain ⟨close, rfl, hlt, hclose⟩ := blockStop_eq_ok hstop
        exact ⟨close, .char '}', rfl, hclose, by decide, by omega, .inl rfl⟩
      · split at hstop
        · cases hstop
        · next htaken =>
          cases hstop
          rcases hsolid with ⟨hzero, -⟩ | ⟨k, c, rfl, hget, hc⟩
          · exact absurd hzero htaken
          · exact ⟨k, c, rfl, hget, hc, by omega, .inr hlast⟩
    refine ⟨rfl, ?_, boundary_of_solid hc hget hkend⟩
    dsimp only
    split <;> omega

end Span

/-- Spans that come in order from index `pos` on, do not overlap, and lie in the text. The line feed
of a blank line before a span belongs to none of them. -/
inductive Apart (t : Text) : Nat → List Span → Prop where
  | nil {pos : Nat} (h : pos ≤ t.length) : Apart t pos []
  | cons {pos : Nat} {s : Span} {ss : List Span} (hstart : pos ≤ s.start) (hstop : s.start ≤ s.stop)
      (hblank : 2 ≤ s.start →
        Text.slice t (s.start - 2) s.start = [.char '\n', .char '\n'] → pos < s.start)
      (h : Apart t s.stop ss) : Apart t pos (s :: ss)

variable {pos : Nat}

theorem Apart.le_length (h : Apart t pos ss) : pos ≤ t.length := by
  induction h with
  | nil h => exact h
  | cons hstart hstop _ _ ih => omega

theorem Apart.of_cons (h : Apart t pos (s :: ss)) :
    pos ≤ s.start ∧ s.start ≤ s.stop ∧ s.stop ≤ t.length ∧ Apart t s.stop ss := by
  cases h with
  | cons hstart hstop _ hrest => exact ⟨hstart, hstop, hrest.le_length, hrest⟩

/-- There is no blank line right before such a place, unless it is the end of the text. -/
theorem Boundary.slice_ne (h : Boundary t pos) (hlt : pos < t.length) (htwo : 2 ≤ pos) :
    Text.slice t (pos - 2) pos ≠ [.char '\n', .char '\n'] := by
  intro hslice
  have hfirst := Text.getElem?_slice (k := 0) t (pos - 2) pos
  have hsecond := Text.getElem?_slice (k := 1) t (pos - 2) pos
  rw [hslice, if_pos (by omega)] at hfirst hsecond
  cases h with
  | start => omega
  | finish => omega
  | @brace k hget =>
    rw [show k + 1 - 2 + 1 = k by omega, hget] at hsecond
    cases hsecond
  | line hget hc _ =>
    rw [Nat.add_sub_cancel, Nat.add_zero, hget] at hfirst
    exact hc (Option.some.inj hfirst).symm

/-- A span that is looked for from a boundary starts behind it. -/
theorem Boundary.le_start (hpos : Boundary t pos) (h : Span.ofMarker t f i = .ok s)
    (hi : i < t.length) (hle : pos ≤ i) : pos ≤ s.start := by
  obtain ⟨hstart, -, -⟩ := Span.ofMarker_eq_ok h hi
  split at hstart
  · next hblank =>
    rw [hstart]
    cases hpos with
    | start => exact Nat.zero_le _
    | finish => omega
    | @brace k hget =>
      -- if the line started before the brace, the brace would be among blanks
      apply Nat.lt_of_not_le
      intro hbefore
      have hmem : .char '}' ∈ Text.slice t (Text.lineStart t i) i := by
        apply List.mem_of_getElem? (i := k - Text.lineStart t i)
        rw [Text.getElem?_slice, Nat.add_sub_cancel' hbefore, if_pos (by omega), hget]
      have := List.all_eq_true.1 hblank _ hmem
      revert this
      decide
    | line _ _ hbreak => exact Text.lt_lineStart hbreak hle
  · rw [hstart]
    exact hle

/-- Spans that are looked for from a boundary are apart. -/
theorem apart_of_spansFrom {fuel : Nat} (hmarker : f.marker ≠ []) (hpos : Boundary t pos)
    (h : spansFrom t f fuel pos = .ok ss) : Apart t pos ss := by
  induction fuel generalizing pos ss with
  | zero =>
    cases h
    exact .nil hpos.le_length
  | succ fuel ih =>
    unfold spansFrom at h
    split at h
    · cases h
    · cases h
      exact .nil hpos.le_length
    · next s hs =>
      obtain ⟨rest, hrest, rfl⟩ := exists_of_map_eq_ok h
      unfold spanFrom at hs
      split at hs
      · cases hs
      · next index hindex =>
        obtain ⟨_, hs, heq⟩ := exists_of_map_eq_ok hs
        cases heq
        obtain ⟨hle, hprefix⟩ := Text.prefix_of_searchFrom hindex
        have hlt := Text.lt_length_of_prefix_drop hmarker hprefix
        obtain ⟨hstart, hstop, hboundary⟩ := Span.ofMarker_eq_ok hs hlt
        have hposStart := hpos.le_start hs hlt hle
        have hline := Text.le_lineEnd t index
        have hstartIndex : s.start ≤ index := by
          have := Text.lineStart_le t index
          rw [hstart]
          split <;> omega
        refine .cons hposStart (by omega) ?_ (ih hboundary hrest)
        intro htwo hslice
        apply Nat.lt_of_le_of_ne hposStart
        intro heq
        exact hpos.slice_ne (by omega) (by omega) (heq ▸ hslice)

/-- **Spans are apart.** They come in order, do not overlap and lie in the text. -/
theorem spans_apart (hmarker : f.marker ≠ []) (h : spans t f = .ok ss) : Apart t 0 ss :=
  apart_of_spansFrom hmarker .start h

end Graft
