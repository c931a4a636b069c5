import Graft.Proofs.Text.Blank
import Graft.Proofs.Text.Lines
import Mathlib.Data.List.TakeWhile

/-!
# Lines, blanks apart

What a text says line by line, whatever blank lines are in it and however its lines are indented
(`Text.solidLines`). Blanks at either end of a text do not matter for it, and it can be read part by
part where the parts meet at a line feed.

> `solidLines_append`: at a line feed, the lines of the parts come one after the other.
-/

namespace Graft

namespace Text

variable {t u b : Text} {c : CodePoint}

/-- Trimmed lines, without those that are blank. -/
def solidOnes (ls : List Text) : List Text :=
  (ls.map trim).filter (· ≠ [])

/-- The trimmed lines of a text, without those that are blank. -/
def solidLines (t : Text) : List Text :=
  solidOnes (lines t)

/-! ## Lines part by part -/

theorem lines_ne_nil (h : t ≠ []) : lines t ≠ [] := by
  fun_cases lines t with
  | case1 => exact absurd rfl h
  | case2 | case3 | case4 | case5 => exact List.cons_ne_nil _ _

/-- The lines of a text that a character is put before, if the character is no line break. -/
theorem lines_cons (hc : isLineBreak c = false) (t : Text) :
    lines (c :: t) = (c :: (lines t).head?.getD []) :: (lines t).tail := by
  have hreturn : c ≠ .char '\r' := by
    rintro rfl
    cases hc
  rw [lines.eq_3 _ _ (fun _ heq _ => hreturn heq), hc, if_neg (by simp)]
  cases lines t <;> rfl

/-- A line break ends an empty line, unless it is a carriage return before its line feed. -/
theorem lines_cons_break (hc : isLineBreak c = true)
    (hpair : c = .char '\r' → t.head? ≠ some (.char '\n')) :
    lines (c :: t) = [] :: lines t := by
  rw [lines.eq_3, if_pos hc]
  rintro r rfl rfl
  exact hpair rfl rfl

/-- The lines behind a line feed come after the lines before it and, it may be, an empty one. -/
theorem exists_lines_append (t u : Text) :
    ∃ e, lines (t ++ .char '\n' :: u) = lines t ++ (e ++ lines u) ∧ ∀ l ∈ e, l = [] := by
  have hfeed : lines (.char '\n' :: u) = [[]] ++ lines u := rfl
  fun_induction lines t with
  | case1 => exact ⟨[[]], hfeed, by simp⟩
  | case2 r ih =>
    obtain ⟨e, he, hempty⟩ := ih
    exact ⟨e, congrArg ([] :: ·) he, hempty⟩
  | case3 c r hpair hbreak ih =>
    obtain ⟨e, he, hempty⟩ := ih
    rw [List.cons_append]
    by_cases hlast : c = .char '\r' ∧ r = []
    · obtain ⟨rfl, rfl⟩ := hlast
      exact ⟨[], rfl, by simp⟩
    · refine ⟨e, ?_, hempty⟩
      rw [lines_cons_break hbreak, he]
      · rfl
      · rintro rfl
        cases r with
        | nil => exact absurd ⟨rfl, rfl⟩ hlast
        | cons d r => exact fun heq => hpair r rfl (by rw [← Option.some.inj heq])
  | case4 c r hpair hbreak hnil ih =>
    obtain rfl : r = [] := Classical.not_not.1 fun hne => lines_ne_nil hne hnil
    refine ⟨[], ?_, by simp⟩
    rw [List.singleton_append, lines_cons (eq_false_of_ne_true hbreak), hfeed]
    rfl
  | case5 c r hpair hbreak l ls hls ih =>
    obtain ⟨e, he, hempty⟩ := ih
    refine ⟨e, ?_, hempty⟩
    rw [List.cons_append, lines_cons (eq_false_of_ne_true hbreak), he, hls]
    rfl

/-- A character more at the end makes the last line longer, or gives one more. -/
theorem lines_concat (t : Text) (c : CodePoint) : (∃ e, lines (t ++ [c]) = lines t ++ e ∧
      ∀ l ∈ e, l = [] ∨ l = [c]) ∨
    ∃ ls l, lines t = ls ++ [l] ∧ lines (t ++ [c]) = ls ++ [l ++ [c]] := by
  fun_induction lines t with
  | case1 =>
    left
    refine ⟨lines [c], rfl, fun l hl => ?_⟩
    cases hc : isLineBreak c with
    | true =>
      rw [lines_cons_break hc (by simp)] at hl
      exact .inl (List.mem_singleton.1 hl)
    | false =>
      rw [lines_cons hc] at hl
      exact .inr (List.mem_singleton.1 hl)
  | case2 r ih =>
    rcases ih with ⟨e, he, hl⟩ | ⟨ls, l, hls, hlast⟩
    · exact .inl ⟨e, congrArg ([] :: ·) he, hl⟩
    · exact .inr ⟨[] :: ls, l, congrArg ([] :: ·) hls, congrArg ([] :: ·) hlast⟩
  | case3 d r hpair hbreak ih =>
    rw [List.cons_append]
    by_cases hlast : d = .char '\r' ∧ r = [] ∧ c = .char '\n'
    · obtain ⟨rfl, rfl, rfl⟩ := hlast
      exact .inl ⟨[], rfl, by simp⟩
    · rw [lines_cons_break hbreak]
      · rcases ih with ⟨e, he, hl⟩ | ⟨ls, l, hls, hlast⟩
        · exact .inl ⟨e, congrArg ([] :: ·) he, hl⟩
        · exact .inr ⟨[] :: ls, l, congrArg ([] :: ·) hls, congrArg ([] :: ·) hlast⟩
      · rintro rfl
        cases r with
        | nil => exact fun heq => hlast ⟨rfl, rfl, Option.some.inj heq⟩
        | cons e r => exact fun heq => hpair r rfl (by rw [← Option.some.inj heq])
  | case4 d r hpair hbreak hnil ih =>
    obtain rfl : r = [] := Classical.not_not.1 fun hne => lines_ne_nil hne hnil
    rw [List.singleton_append, lines_cons (eq_false_of_ne_true hbreak)]
    cases hc : isLineBreak c with
    | true =>
      rw [lines_cons_break hc (by simp)]
      exact .inl ⟨[], rfl, by simp⟩
    | false =>
      rw [lines_cons hc]
      exact .inr ⟨[], [d], rfl, rfl⟩
  | case5 d r hpair hbreak l ls hls ih =>
    rw [List.cons_append, lines_cons (eq_false_of_ne_true hbreak)]
    rcases ih with ⟨e, he, hl⟩ | ⟨ls', l', hls', hlast⟩
    · left
      rw [he, hls]
      exact ⟨e, rfl, hl⟩
    · right
      rw [hlast]
      rw [hls] at hls'
      cases ls' with
      | nil =>
        obtain ⟨rfl, rfl⟩ := List.cons.inj hls'
        exact ⟨[], d :: l, rfl, rfl⟩
      | cons m ms =>
        obtain ⟨rfl, rfl⟩ := List.cons.inj hls'
        exact ⟨(d :: l) :: ms, l', rfl, rfl⟩

/-! ## Solid lines -/

theorem solidOnes_append (ls ms : List Text) :
    solidOnes (ls ++ ms) = solidOnes ls ++ solidOnes ms := by
  rw [solidOnes, List.map_append, List.filter_append]
  rfl

theorem solidOnes_eq_nil {ls : List Text} (h : ∀ l ∈ ls, allBlank l = true) :
    solidOnes ls = [] := by
  rw [solidOnes, List.filter_eq_nil_iff]
  intro l hl
  obtain ⟨l', hl', rfl⟩ := List.mem_map.1 hl
  rw [(trim_eq_nil_iff l').2 (h l' hl')]
  decide

/-- At a line feed, the lines of the parts come one after the other. -/
theorem solidLines_append (t u : Text) :
    solidLines (t ++ .char '\n' :: u) = solidLines t ++ solidLines u := by
  obtain ⟨e, he, hempty⟩ := exists_lines_append t u
  have hnone : solidOnes e = [] := solidOnes_eq_nil fun l hl => by rw [hempty l hl]; rfl
  rw [solidLines, he, solidOnes_append, solidOnes_append, hnone]
  rfl

theorem trim_cons_blank (hc : isBlank c = true) (t : Text) : trim (c :: t) = trim t := by
  rw [trim, trimLeft, List.dropWhile_cons_of_pos hc]
  rfl

theorem trim_append_blanks (hb : allBlank b = true) (t : Text) : trim (t ++ b) = trim t := by
  rw [trim, trim, trimLeft, trimLeft, List.dropWhile_append]
  split
  · next hnil =>
    have hdrop : b.dropWhile isBlank = [] := List.dropWhile_eq_nil_iff.2 (List.all_eq_true.1 hb)
    rw [List.isEmpty_iff.1 hnil, hdrop]
  · exact trimRight_append_blanks hb _

/-- A blank at the start does not matter. -/
theorem solidLines_cons_blank (hc : isBlank c = true) (t : Text) :
    solidLines (c :: t) = solidLines t := by
  cases hbreak : isLineBreak c with
  | true =>
    by_cases hpair : c = .char '\r' ∧ t.head? = some (.char '\n')
    · obtain ⟨rfl, hhead⟩ := hpair
      obtain ⟨r, rfl⟩ := List.head?_eq_some_iff.1 hhead
      rfl
    · rw [solidLines, lines_cons_break hbreak fun heq hhead => hpair ⟨heq, hhead⟩]
      rfl
  | false =>
    rw [solidLines, solidLines, lines_cons hbreak, solidOnes, List.map_cons, trim_cons_blank hc]
    cases lines t <;> rfl

theorem solidLines_blanks_append (hb : allBlank b = true) (t : Text) :
    solidLines (b ++ t) = solidLines t := by
  induction b with
  | nil => rfl
  | cons c r ih =>
    obtain ⟨hc, hr⟩ := Bool.and_eq_true_iff.1 hb
    rw [List.cons_append, solidLines_cons_blank hc, ih hr]

theorem solidLines_concat_blank (hc : isBlank c = true) (t : Text) :
    solidLines (t ++ [c]) = solidLines t := by
  have hblank : allBlank [c] = true := by rw [allBlank, List.all_cons, hc]; rfl
  rw [solidLines, solidLines]
  rcases lines_concat t c with ⟨e, he, hl⟩ | ⟨ls, l, hls, hlast⟩
  · have hnone : solidOnes e = [] := by
      refine solidOnes_eq_nil fun l hmem => ?_
      rcases hl l hmem with rfl | rfl
      · rfl
      · exact hblank
    rw [he, solidOnes_append, hnone, List.append_nil]
  · rw [hls, hlast, solidOnes_append, solidOnes_append]
    congr 1
    rw [solidOnes, List.map_singleton, trim_append_blanks hblank]
    rfl

theorem solidLines_append_blanks (hb : allBlank b = true) (t : Text) :
    solidLines (t ++ b) = solidLines t := by
  induction b generalizing t with
  | nil => rw [List.append_nil]
  | cons c r ih =>
    obtain ⟨hc, hr⟩ := Bool.and_eq_true_iff.1 hb
    rw [List.append_cons, ih hr, solidLines_concat_blank hc]

end Text

end Graft
