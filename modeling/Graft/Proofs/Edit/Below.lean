import Graft.Proofs.Brace.Reading
import Graft.Proofs.Edit.Characters
import Graft.Proofs.Text.Occurrences

/-!
# Below a header

A fragment that is put below a header has its lines indented by the margin of the block
(`Insertion.indent_join`). What stood behind the brace is pushed down, and only blanks come in on
the way, so that the scanner finds the braces that it found before (`Insertion.kinds_pushed`).
-/

namespace Graft

open Text

namespace Insertion

open ScanState

variable {margin rest t : Text}

/-- What the lines of a fragment start with below the header that has its brace at an index. -/
def innerMargin (document : Text) (brace : Nat) : Text :=
  (slice document (lineStart document brace) brace).takeWhile isBlank ++ indentation

theorem allBlank_innerMargin (document : Text) (brace : Nat) :
    allBlank (innerMargin document brace) = true :=
  allBlank_inner _

theorem lineFeed_not_mem_innerMargin (document : Text) (brace : Nat) :
    .char '\n' ∉ innerMargin document brace := by
  intro hmem
  obtain ⟨above, line, htake, hstart, hline, -⟩ := exists_lineStart document brace
  rw [innerMargin, slice, htake, hstart, List.drop_left, List.mem_append] at hmem
  rcases hmem with hmem | hmem
  · exact hline ((List.takeWhile_sublist _).subset hmem)
  · revert hmem
    decide

/-- What becomes of the text behind a header when a fragment is put below the header. -/
def pushed (margin rest : Text) : Text :=
  if !allBlank (rest.takeWhile (· ≠ .char '\n')) then
    .char '\n' :: .char '\n' :: (margin ++ rest.dropWhile isIndent)
  else if !allBlank rest && (trimLeft rest).head? != some (.char '}') then .char '\n' :: rest
  else rest

theorem insertBelow_eq (document rendered : Text) (brace : Nat) :
    insertBelow document rendered brace = document.take (brace + 1) ++ .char '\n' ::
      (indent (innerMargin document brace) rendered ++
        pushed (innerMargin document brace) (document.drop (brace + 1))) := by
  unfold insertBelow pushed
  dsimp only
  split
  · simp [innerMargin]
  · split
    · simp [innerMargin]
    · simp [innerMargin]

/-- Every line gets the margin, if none is blank. -/
theorem indent_join {ls : List Text}
    (h : ∀ l ∈ ls, allBlank l = false ∧ ∀ c ∈ l, isLineBreak c = false) (margin : Text) :
    indent margin (join [.char '\n'] ls) = join [.char '\n'] (ls.map (margin ++ ·)) := by
  have hlines : lines (join [.char '\n'] ls) = ls := by
    apply lines_join
    intro l hl
    obtain ⟨hblank, hbreak⟩ := h l hl
    refine ⟨?_, hbreak⟩
    rintro rfl
    cases hblank
  rw [indent, hlines]
  congr 1
  apply List.map_congr_left
  intro l hl
  rw [(h l hl).1]
  rfl

/-- What is pushed down has the braces that it had. -/
theorem kinds_pushed (hmargin : allBlank margin = true) (rest : Text) :
    start.kinds (pushed margin rest) [] = start.kinds rest [] := by
  unfold pushed
  split
  · have hindent : allBlank (rest.takeWhile isIndent) = true :=
      allBlank_of_isIndent List.all_takeWhile
    have hbreaks : allBlank (.char '\n' :: .char '\n' :: margin) = true := hmargin
    rw [← List.cons_append, ← List.cons_append, kinds_start_blanks hbreaks,
      ← kinds_start_blanks hindent, List.takeWhile_append_dropWhile]
  · split
    · exact kinds_start_blanks (u := [.char '\n']) (by decide) rest []
    · rfl

theorem inert_pushed (margin rest : Text) : Inert (pushed margin rest) := by
  unfold pushed
  split
  · exact inert_of_isBlank (by decide) _
  · next hblank =>
    split
    · exact inert_of_isBlank (by decide) _
    · cases rest with
      | nil => exact inert_nil
      | cons c r =>
        apply inert_of_isBlank
        by_cases hc : c = .char '\n'
        · rw [hc]
          decide
        · rw [List.takeWhile_cons_of_pos (by simpa using hc), Bool.not_eq_true', Bool.not_eq_false,
            allBlank, List.all_cons, Bool.and_eq_true_iff] at hblank
          exact hblank.1

theorem opensIndented_pushed (h : allBlank (rest.takeWhile (· ≠ .char '\n')) = true →
    OpensIndented rest) (margin : Text) : OpensIndented (pushed margin rest) := by
  unfold pushed
  split
  · rfl
  · next hblank =>
    split
    · rfl
    · exact h (by simpa using hblank)

/-- Only blanks come in and go. -/
theorem solids_pushed (hmargin : allBlank margin = true) (rest : Text) :
    solids (pushed margin rest) = solids rest := by
  unfold pushed
  split
  · rw [solids_lineFeed, solids_lineFeed, solids_append, solids_eq_nil_iff.2 hmargin,
      solids_dropWhile fun _ => isBlank_of_isIndent]
    rfl
  · split
    · exact solids_lineFeed rest
    · rfl

/-- A pattern that starts with another character is not in what is pushed down, unless it was in it
before. -/
theorem search_pushed {c : CodePoint} {p : Text} (hbreak : c ≠ .char '\n') (hmargin : c ∉ margin)
    (h : search (c :: p) rest = none) : search (c :: p) (pushed margin rest) = none := by
  have hfront : ∀ u v : Text, c ∉ u → search (c :: p) v = none →
      search (c :: p) (u ++ v) = none := by
    intro u v hu hv
    rw [search_append hu, hv]
    rfl
  unfold pushed
  split
  · have hdrop := search_eq_none_of_isInfix h (List.dropWhile_suffix isIndent).isInfix
    exact hfront [.char '\n', .char '\n'] _ (by simp [hbreak]) (hfront margin _ hmargin hdrop)
  · split
    · exact hfront [.char '\n'] _ (by simp [hbreak]) h
    · exact h

/-- Only line feeds and the margin come in. -/
theorem not_mem_pushed {c : CodePoint} (hbreak : c ≠ .char '\n') (hmargin : c ∉ margin)
    (h : c ∉ rest) :
    c ∉ pushed margin rest := by
  unfold pushed
  split
  · simp only [List.mem_cons, List.mem_append, not_or]
    exact ⟨hbreak, hbreak, hmargin, fun hmem => h ((List.dropWhile_sublist _).subset hmem)⟩
  · split
    · rw [List.mem_cons, not_or]
      exact ⟨hbreak, h⟩
    · exact h

end Insertion

end Graft
