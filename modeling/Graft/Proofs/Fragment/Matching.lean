import Graft.Proofs.Edit.Spans
import Graft.Proofs.Fragment.Rendering
import Mathlib.Data.List.Forall2
import Mathlib.Data.List.Perm.Subperm

/-!
# What fits a declaration line

The lines below a marker are told by patterns, the parts of a template line between its
placeholders. Here the same is told without patterns: a line fits a declaration line of a template
if it is that line with something without quotes in place of every placeholder (`Matches`).

> `fits_iff`: the lines that fit the pattern of a declaration line are those that match the line.
> `exists_takeDeclarations`: the lines that are taken match different declaration lines, one each.
-/

namespace Graft

open Text

/-! ## Placeholders and what stands in their place -/

/-- A text is a template with value characters in place of every placeholder. Names run on through
word characters of every script, as they do where filled templates are recognised. -/
inductive Template.Refilled : Text → Text → Prop
  | nil : Refilled [] []
  | char {c : CodePoint} {t u : Text} (hc : c = .char '$' → placeholder? isWord t = none)
      (h : Refilled t u) : Refilled (c :: t) (c :: u)
  | placeholder {p name value t u : Text}
      (hp : placeholder? isWord (p ++ t) = some (name, p.length))
      (hvalue : value.all Declaration.isValueChar = true) (h : Refilled t u) :
      Refilled (.char '$' :: (p ++ t)) (value ++ u)

namespace Template

theorem partsSkipping_length (part : CodePoint → Bool) (p t : Text) :
    partsSkipping part p.length (p ++ t) = partsSkipping part 0 t := by
  induction p with
  | nil => rfl
  | cons c r ih => exact ih

theorem partsSkipping_ne_nil (part : CodePoint → Bool) (size : Nat) (t : Text) :
    partsSkipping part size t ≠ [] := by
  fun_induction partsSkipping part size t with
  | case1 => simp
  | case2 => assumption
  | case3 => simp
  | case4 => simp
  | case5 => simp

end Template

namespace Declaration

open Template

variable {t u head line rest : Text} {c : CodePoint} {p : Text} {ps : List Text}

/-- A line is a line of a template, refilled, up to blanks around both: the line of the template may
be anyhow indented, the other one by spaces and tabs. -/
def Matches (head line : Text) : Prop :=
  ∃ indent w trail, line = indent ++ (w ++ trail) ∧ indent.all isIndent = true ∧
    Refilled (trim head) w ∧ trail.all isIndent = true

theorem fitsParts_char (c : CodePoint) (h : fitsParts (p :: ps) u = true) :
    fitsParts ((c :: p) :: ps) (c :: u) = true := by
  cases ps with
  | nil =>
    rw [fitsParts] at h ⊢
    simpa using h
  | cons q qs =>
    rw [fitsParts] at h ⊢
    · simpa using h
    · simp
    · simp

theorem isValueChar_of_isWord (h : isWord c = true) : isValueChar c = true := by
  have hne : ∀ d, isWord d = false → (c != d) = true := by
    intro d hd
    rw [bne_iff_ne]
    rintro rfl
    rw [h] at hd
    cases hd
  rw [isValueChar, hne _ (by decide), hne _ (by decide), hne _ (by decide)]
  rfl

/-- What is left of a text when a gap has been passed over. -/
theorem exists_of_mem_gapRests (h : rest ∈ gapRests t) :
    ∃ gap, t = gap ++ rest ∧ gap.all isValueChar = true := by
  induction t with
  | nil =>
    rw [List.mem_singleton.1 h]
    exact ⟨[], rfl, rfl⟩
  | cons c r ih =>
    rw [gapRests, List.mem_cons] at h
    rcases h with rfl | h
    · exact ⟨[], rfl, rfl⟩
    · split at h
      · next hc =>
        obtain ⟨gap, rfl, hgap⟩ := ih h
        exact ⟨c :: gap, rfl, by rw [List.all_cons, hc, hgap]; rfl⟩
      · cases h

theorem exists_of_fitsParts_char (h : fitsParts ((c :: p) :: ps) u = true) :
    ∃ v, u = c :: v ∧ fitsParts (p :: ps) v = true := by
  cases ps with
  | nil =>
    obtain ⟨hfront, hrest⟩ := Bool.and_eq_true_iff.1 h
    obtain ⟨v, rfl⟩ := List.isPrefixOf_iff_prefix.1 hfront
    rw [List.drop_left] at hrest
    exact ⟨p ++ v, rfl, fitsParts_last hrest⟩
  | cons q qs =>
    obtain ⟨hfront, hrest⟩ := Bool.and_eq_true_iff.1 h
    obtain ⟨v, rfl⟩ := List.isPrefixOf_iff_prefix.1 hfront
    rw [List.drop_left] at hrest
    refine ⟨p ++ v, rfl, Bool.and_eq_true_iff.2 ⟨?_, ?_⟩⟩
    · exact List.isPrefixOf_iff_prefix.2 (List.prefix_append _ _)
    · rwa [List.drop_left]

/-- A refilled text fits the parts of its template. -/
theorem fitsParts_of_refilled (h : Refilled t u) (hrest : rest.all isIndent = true) :
    fitsParts (parts isWord t) (u ++ rest) = true := by
  unfold parts
  induction h with
  | nil => exact fitsParts_last (p := []) hrest
  | @char c t u hc _ ih =>
    have hnone : (if c = .char '$' then placeholder? isWord t else none) = none := by
      split
      · next heq => exact hc heq
      · rfl
    rw [partsSkipping, hnone]
    dsimp only
    split
    · next hnil => exact absurd hnil (partsSkipping_ne_nil _ _ _)
    · next q qs hparts =>
      rw [hparts] at ih
      exact fitsParts_char c ih
  | @placeholder p name value t u hp hvalue _ ih =>
    rw [partsSkipping, if_pos rfl, hp]
    dsimp only
    rw [partsSkipping_length]
    obtain ⟨q, qs, hparts⟩ := List.exists_cons_of_ne_nil (partsSkipping_ne_nil isWord 0 t)
    rw [hparts] at ih ⊢
    rw [List.append_assoc]
    exact fitsParts_cons (p := []) hvalue ih

/-- **What fits the parts of a template is the template, refilled**, and indentation behind it. -/
theorem exists_of_fitsParts (h : fitsParts (parts isWord t) u = true) :
    ∃ w trail, u = w ++ trail ∧ Refilled t w ∧ trail.all isIndent = true := by
  -- by induction on the length, as a placeholder is passed over at once
  induction hlength : t.length using Nat.strongRecOn generalizing t u with
  | ind n ih =>
    unfold parts at h ih
    cases t with
    | nil => exact ⟨[], u, rfl, .nil, h⟩
    | cons c r =>
      rw [List.length_cons] at hlength
      rw [partsSkipping] at h
      split at h
      · next name size hsome =>
        obtain ⟨rfl, hp⟩ : c = .char '$' ∧ placeholder? isWord r = some (name, size) := by
          split at hsome
          · next hc => exact ⟨hc, hsome⟩
          · cases hsome
        obtain ⟨p, t, rfl, rfl⟩ := exists_of_placeholder? hp
        rw [partsSkipping_length] at h
        obtain ⟨q, qs, hparts⟩ := List.exists_cons_of_ne_nil (partsSkipping_ne_nil isWord 0 t)
        rw [hparts] at h
        obtain ⟨-, hgap⟩ := Bool.and_eq_true_iff.1 h
        obtain ⟨rest, hmem, hrest⟩ := List.any_eq_true.1 hgap
        obtain ⟨value, hvalue, hall⟩ := exists_of_mem_gapRests hmem
        rw [← hparts] at hrest
        rw [List.length_append] at hlength
        obtain ⟨w, trail, rfl, hw, htrail⟩ := ih t.length (by omega) hrest rfl
        refine ⟨value ++ w, trail, ?_, .placeholder hp hall hw, htrail⟩
        rw [List.append_assoc, ← hvalue]
        rfl
      · next hnone =>
        obtain ⟨q, qs, hparts⟩ := List.exists_cons_of_ne_nil (partsSkipping_ne_nil isWord 0 r)
        rw [hparts] at h
        obtain ⟨v, rfl, hv⟩ := exists_of_fitsParts_char h
        rw [← hparts] at hv
        obtain ⟨w, trail, rfl, hw, htrail⟩ := ih r.length (by omega) hv rfl
        refine ⟨c :: w, trail, rfl, .char (fun hc => ?_) hw, htrail⟩
        rwa [if_pos hc] at hnone

/-- A line that fits a pattern with one placeholder has a value in its place. -/
theorem exists_of_fits_pair {q : Text} (h : fits [p, q] line = true) : ∃ indent gap trail,
    line = indent ++ (p ++ (gap ++ (q ++ trail))) ∧ indent.all isIndent = true ∧
      gap.all isValueChar = true ∧ trail.all isIndent = true := by
  have hsplit := List.takeWhile_append_dropWhile (p := isIndent) (l := line)
  unfold fits dropIndent at h
  obtain ⟨hfirst, hgap⟩ := Bool.and_eq_true_iff.1 h
  obtain ⟨t, ht⟩ := List.isPrefixOf_iff_prefix.1 hfirst
  rw [← ht, List.drop_left, List.any_eq_true] at hgap
  obtain ⟨rest, hrest, hlast⟩ := hgap
  obtain ⟨gap, rfl, hgap⟩ := exists_of_mem_gapRests hrest
  obtain ⟨hsecond, htrail⟩ := Bool.and_eq_true_iff.1 hlast
  obtain ⟨trail, rfl⟩ := List.isPrefixOf_iff_prefix.1 hsecond
  rw [List.drop_left] at htrail
  refine ⟨line.takeWhile isIndent, gap, trail, ?_, List.all_takeWhile, hgap, htrail⟩
  rw [ht, hsplit]

/-- **The lines that fit the pattern of a declaration line are those that match it.** -/
theorem fits_iff (hhead : isDeclaration head = true) :
    fits (patternOf head) line = true ↔ Matches head line := by
  constructor
  · intro h
    obtain ⟨w, trail, hw, hrefilled, htrail⟩ := exists_of_fitsParts h
    refine ⟨line.takeWhile isIndent, w, trail, ?_, List.all_takeWhile, hrefilled, htrail⟩
    rw [← hw, dropIndent, List.takeWhile_append_dropWhile]
  · rintro ⟨indent, w, trail, rfl, hindent, hrefilled, htrail⟩
    apply fits_indent hindent
    obtain ⟨c, r, htrim, hc⟩ := exists_trim hhead
    -- the keyword is still there, so nothing more is dropped
    obtain ⟨w', rfl⟩ : ∃ w', w = c :: w' := by
      rw [htrim] at hrefilled
      cases hrefilled with
      | char => exact ⟨_, rfl⟩
      | placeholder => cases hc
    rw [fits, List.cons_append, dropIndent_cons hc, ← List.cons_append]
    exact fitsParts_of_refilled hrefilled htrail

end Declaration

/-! ## The lines that are taken -/

namespace Span

open Declaration

/-- A line that fits a declaration line but none before it uses that one up. -/
theorem takeDeclarations_cons {before behind : List Text} {head line : Text}
    (hbefore : ∀ l ∈ before, fits (patternOf l) line = false) (hfits : fits (patternOf head) line = true)
    (stop : Nat) (below : List Text) :
    takeDeclarations ((before ++ head :: behind).map patternOf) stop (line :: below) =
      let rest := takeDeclarations ((before ++ behind).map patternOf) (stop + 1 + line.length) below
      (rest.1, rest.2 + 1) := by
  have hfind : ((before ++ head :: behind).map patternOf).find? (fits · line) =
      some (patternOf head) := by
    rw [List.find?_map, Option.map_eq_some_iff]
    refine ⟨head, List.find?_eq_some_iff_append.2 ⟨hfits, before, behind, rfl, fun l hl => ?_⟩, rfl⟩
    simp [hbefore l hl]
  have herase : ((before ++ head :: behind).map patternOf).eraseP (fits · line) =
      (before ++ behind).map patternOf := by
    have hfits' : ((fits · line) ∘ patternOf) head = true := hfits
    rw [List.eraseP_map, List.eraseP_append_right, List.eraseP_cons_of_pos hfits']
    exact fun l hl => by simp [hbefore l hl]
  rw [takeDeclarations, hfind]
  dsimp only
  rw [herase]

/-- A line that fits no declaration line is not taken, nor is any line below it. -/
theorem takeDeclarations_of_forall_not {heads : List Text} {line : Text}
    (h : ∀ l ∈ heads, fits (patternOf l) line = false) (stop : Nat) (below : List Text) :
    takeDeclarations (heads.map patternOf) stop (line :: below) = (stop, 0) := by
  have hnone : (heads.map patternOf).find? (fits · line) = none := by
    rw [List.find?_eq_none]
    intro p hp hfits
    obtain ⟨l, hl, rfl⟩ := List.mem_map.1 hp
    rw [h l hl] at hfits
    cases hfits
  rw [takeDeclarations, hnone]

/-- **The lines that are taken are the first ones**, and they can be assigned to different ones of the
lines that the patterns were made of, so that each matches the one it is assigned to. -/
theorem exists_takeDeclarations {heads : List Text} (hheads : ∀ l ∈ heads, isDeclaration l = true)
    (stop : Nat) (lines : List Text) : ∃ k assigned,
      takeDeclarations (heads.map patternOf) stop lines =
        (stop + ((lines.take k).flatMap (.char '\n' :: ·)).length, k) ∧ k ≤ lines.length ∧
      List.Subperm assigned heads ∧ List.Forall₂ Matches assigned (lines.take k) := by
  induction lines generalizing heads stop with
  | nil => exact ⟨0, [], rfl, Nat.le_refl 0, List.nil_subperm, .nil⟩
  | cons line below ih =>
    cases hfind : heads.find? fun l => fits (patternOf l) line with
    | none =>
      have hnone : ∀ l ∈ heads, fits (patternOf l) line = false := by
        simpa using List.find?_eq_none.1 hfind
      exact ⟨0, [], takeDeclarations_of_forall_not hnone stop below, Nat.zero_le _,
        List.nil_subperm, .nil⟩
    | some head =>
      -- the line uses up the first of the lines that it matches
      obtain ⟨hfits, before, behind, rfl, hbefore⟩ := List.find?_eq_some_iff_append.1 hfind
      have hothers : ∀ l ∈ before ++ behind, isDeclaration l = true := by
        intro l hl
        apply hheads l
        rw [List.mem_append, List.mem_cons]
        exact (List.mem_append.1 hl).imp_right .inr
      obtain ⟨k, assigned, heq, hle, hsub, hmatches⟩ := ih hothers (stop + 1 + line.length)
      have hhead := (fits_iff (hheads head (by simp))).1 hfits
      refine ⟨k + 1, head :: assigned, ?_, ?_, ?_, ?_⟩
      · rw [takeDeclarations_cons (fun l hl => by simpa using hbefore l hl) hfits, heq,
          List.take_succ_cons, List.flatMap_cons, List.length_append, List.length_cons,
          Prod.mk.injEq]
        exact ⟨by omega, rfl⟩
      · rw [List.length_cons]
        omega
      · exact ((List.subperm_cons head).2 hsub).trans List.perm_middle.symm.subperm
      · rw [List.take_succ_cons]
        exact .cons hhead hmatches

/-- Nothing is taken where the first line matches none. -/
theorem takeDeclarations_eq_zero {heads lines : List Text}
    (hheads : ∀ l ∈ heads, isDeclaration l = true)
    (h : ∀ line ∈ lines.head?, ∀ l ∈ heads, ¬ Matches l line) (stop : Nat) :
    takeDeclarations (heads.map patternOf) stop lines = (stop, 0) := by
  cases lines with
  | nil => rfl
  | cons line below =>
    apply takeDeclarations_of_forall_not
    intro l hl
    rw [← Bool.not_eq_true, fits_iff (hheads l hl)]
    exact h line rfl l hl

end Span

end Graft
