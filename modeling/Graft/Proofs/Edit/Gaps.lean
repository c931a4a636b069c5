import Graft.Proofs.Edit.Below
import Graft.Proofs.Edit.Laying

/-!
# Gaps

Between the lines of a fragment below a header and what the block holds after them there are blanks,
and these are all that changes when the fragment is taken out and put in again. Of such a gap
(`Text.IsGap`) it matters only that a line feed is in it with nothing but indentation before it, so
that what follows keeps off the last line of the fragment.

> `Placed.exists_remove_below`: a fragment on lines of its own is taken out with them, and blanks
> are left.
> `Placed.exists_remove_atEnd`: a fragment at the end of a text is taken out, and blanks are left.
> `Insertion.exists_pushed_eq`: what is pushed down by an insertion has a line feed before it.
-/

namespace Graft

open Text

/-! ## Gaps -/

namespace Text

variable {b b' u v : Text} {c : CodePoint}

/-- Blanks without carriage returns. -/
def IsVoid (b : Text) : Prop :=
  ∀ c ∈ b, isBlank c = true ∧ c ≠ .char '\r'

theorem IsVoid.allBlank (h : IsVoid b) : allBlank b = true :=
  List.all_eq_true.2 fun c hc => (h c hc).1

theorem IsVoid.return_not_mem (h : IsVoid b) : .char '\r' ∉ b :=
  fun hmem => (h _ hmem).2 rfl

theorem IsVoid.subset (h : IsVoid b) (hsub : b' ⊆ b) : IsVoid b' :=
  fun c hc => h c (hsub hc)

theorem IsVoid.cons_lineFeed (h : IsVoid b) : IsVoid (.char '\n' :: b) :=
  List.forall_mem_cons.2 ⟨by decide, h⟩

theorem isVoid_of_isIndent (h : b.all isIndent = true) : IsVoid b := by
  intro c hc
  refine ⟨isBlank_of_isIndent (List.all_eq_true.1 h c hc), ?_⟩
  rintro rfl
  exact not_mem_of_isIndent (by decide) h hc

/-- Blanks with a line feed in them and nothing but indentation before it. -/
structure IsGap (b : Text) : Prop where
  void : IsVoid b
  opens : OpensIndented b
  feed : .char '\n' ∈ b

/-- What precedes the line feed and what follows it. -/
theorem IsGap.exists_eq (h : IsGap b) :
    ∃ i r, b = i ++ .char '\n' :: r ∧ i.all isIndent = true ∧ IsVoid r := by
  obtain ⟨i, z, rfl, hi, rfl | ⟨r, rfl⟩⟩ := h.opens.exists_eq_append
  · rw [List.append_nil] at h
    exact absurd h.feed (not_mem_of_isIndent (by decide) hi)
  · refine ⟨i, r, rfl, hi, h.void.subset fun c hc => ?_⟩
    exact List.mem_append_right _ (List.mem_cons_of_mem _ hc)

theorem IsGap.opensIndented (h : IsGap b) (u : Text) : OpensIndented (b ++ u) := by
  obtain ⟨i, r, rfl, hi, -⟩ := h.exists_eq
  have hopens : OpensIndented i := by
    unfold OpensIndented
    rw [List.all_eq_true]
    exact fun c hc => List.all_eq_true.1 hi c ((List.takeWhile_subset _) hc)
  rw [List.append_assoc]
  exact hopens.append _

/-- Indentation at the start of a text is part of the blanks that it starts with. -/
theorem exists_of_append_eq {i rest : Text} (hc : isBlank c = false) (hi : i.all isIndent = true)
    (h : b ++ c :: u = i ++ rest) : ∃ r, b = i ++ r ∧ rest = r ++ c :: u := by
  rcases List.append_eq_append_iff.1 h with ⟨r, rfl, hrest⟩ | ⟨r, rfl, hr⟩
  · cases r with
    | nil => exact ⟨[], by simp, hrest.symm⟩
    | cons d r =>
      obtain rfl : c = d := (List.cons.inj hrest).1
      have hnot := not_mem_of_isIndent (isIndent_eq_false hc) hi
      simp at hnot
  · exact ⟨r, rfl, hr⟩

/-- A line feed fewer is one that the blanks at the start have fewer. -/
theorem exists_dropOne (hc : isBlank c = false) (r u : Text) :
    ∃ r', Declaration.dropOne (.char '\n') (r ++ c :: u) = r' ++ c :: u ∧ r' ⊆ r := by
  cases r with
  | nil =>
    have hne : c ≠ .char '\n' := ne_of_isBlank hc (by decide)
    exact ⟨[], by rw [List.nil_append, Declaration.dropOne, if_neg hne], List.Subset.refl _⟩
  | cons d r =>
    rw [List.cons_append, Declaration.dropOne]
    split
    · exact ⟨r, rfl, List.subset_cons_self d r⟩
    · exact ⟨d :: r, rfl, List.Subset.refl _⟩

end Text

/-! ## Taking out whole lines -/

section Placed

variable {f : Fragment} {b m p u v x y z : Text} {c d : CodePoint}

/-- Where a fragment stands once, it is taken out by one cut. -/
theorem Placed.remove_eq (h : Placed f x u z) (hfeed : .char '\n' ∉ f.marker) (hne : f.marker ≠ [])
    {s : Span} (hs : spanFrom (x ++ (f.marker ++ (u ++ z))) f 0 = .ok (some s)) :
    remove (x ++ (f.marker ++ (u ++ z))) f = .ok (s.cut (x ++ (f.marker ++ (u ++ z)))) := by
  rw [remove, spans_of_once hfeed hne (count_eq_one hne h.first h.once) hs]
  rfl

/-- **A fragment on lines of its own is taken out with them.** If the line above is not empty, this
and what follows stay, but for some of the blanks between them. -/
theorem Placed.exists_remove_below (h : Placed f ((p ++ [d, .char '\n']) ++ m) u (b ++ c :: v))
    (hfeed : .char '\n' ∉ f.marker) (hne : f.marker ≠ []) (hd : d ≠ .char '\n')
    (hm : m.all isIndent = true) (hc : isBlank c = false) :
    ∃ b' ⊆ b, remove (((p ++ [d, .char '\n']) ++ m) ++ (f.marker ++ (u ++ (b ++ c :: v)))) f =
      .ok ((p ++ [d, .char '\n']) ++ (b' ++ c :: v)) := by
  obtain ⟨s, i, rest, hs, hrest, hi, hstart, -, hdrop⟩ :=
    h.exists_span hfeed hne (.inr (by simp)) hm
  have hremove := h.remove_eq hfeed hne hs
  obtain ⟨r, rfl, rfl⟩ := exists_of_append_eq hc hi hrest
  obtain ⟨r', hr', hsub⟩ := exists_dropOne hc r v
  have hsub' : r' ⊆ i ++ r := List.Subset.trans hsub (List.subset_append_right i r)
  have htake : (((p ++ [d, .char '\n']) ++ m) ++
      (f.marker ++ (u ++ ((i ++ r) ++ c :: v)))).take s.start = p ++ [d, .char '\n'] := by
    rw [hstart, List.append_assoc, List.take_left]
  generalize ((p ++ [d, .char '\n']) ++ m) ++ (f.marker ++ (u ++ ((i ++ r) ++ c :: v))) = t
    at hremove hdrop htake
  rw [hr'] at hdrop
  rcases s.cut_cases t with hcut | ⟨htwo, hslice, -⟩ | ⟨hget, -, hcut⟩
  · exact ⟨r', hsub', by rw [hremove, hcut, htake, hdrop]⟩
  · -- the line above would be empty
    have hlast : (slice t (s.start - 2) s.start).head? = some d := by
      have hlength : s.start - 2 = p.length := by
        rw [hstart]
        simp
      rw [slice, htake, hlength, List.drop_left]
      rfl
    rw [hslice] at hlast
    cases hlast
    exact absurd rfl hd
  · obtain ⟨r'', hr'', hsub''⟩ := exists_dropOne hc r' v
    have hbehind : t.drop (s.stop + 1) = Declaration.dropOne (.char '\n') (t.drop s.stop) := by
      rw [← List.head?_drop] at hget
      obtain ⟨q, hq⟩ := List.head?_eq_some_iff.1 hget
      rw [← List.drop_drop, hq]
      rfl
    exact ⟨r'', List.Subset.trans hsub'' hsub', by rw [hremove, hcut, htake, hbehind, hdrop, hr'']⟩

/-- **A fragment at the end is taken out with what keeps it apart**, but perhaps for line feeds. -/
theorem Placed.exists_remove_atEnd (h : Placed f (x ++ [.char '\n', .char '\n']) u [.char '\n'])
    (hfeed : .char '\n' ∉ f.marker) (hne : f.marker ≠ []) :
    ∃ e, IsVoid e ∧
      remove ((x ++ [.char '\n', .char '\n']) ++ (f.marker ++ (u ++ [.char '\n']))) f =
        .ok (x ++ e) := by
  have hplaced : Placed f ((x ++ [.char '\n', .char '\n']) ++ []) u [.char '\n'] := by
    rwa [List.append_nil]
  obtain ⟨s, i, rest, hs, hrest, hi, hstart, -, hdrop⟩ :=
    hplaced.exists_span hfeed hne (.inr (by simp)) rfl
  rw [List.append_nil] at hs hdrop
  have hremove := h.remove_eq hfeed hne hs
  obtain rfl : rest = [.char '\n'] := by
    cases i with
    | nil => exact hrest.symm
    | cons e i =>
      obtain rfl : .char '\n' = e := (List.cons.inj hrest).1
      cases hi
  have hnil : Declaration.dropOne (.char '\n') [.char '\n'] = [] := rfl
  rw [hnil] at hdrop
  have htake : ∀ n, ((x ++ [CodePoint.char '\n', CodePoint.char '\n']) ++
      (f.marker ++ (u ++ [CodePoint.char '\n']))).take (x.length + n) =
      x ++ ([CodePoint.char '\n', CodePoint.char '\n'] ++
        (f.marker ++ (u ++ [CodePoint.char '\n']))).take n := by
    intro n
    rw [List.append_assoc, List.take_append, List.take_of_length_le (by omega)]
    congr 2
    omega
  have hlength : s.start = x.length + 2 := by
    rw [hstart]
    simp
  generalize (x ++ [.char '\n', .char '\n']) ++ (f.marker ++ (u ++ [.char '\n'])) =
    t at hremove hdrop htake
  rcases s.cut_cases t with hcut | ⟨htwo, -, -, hcut⟩ | ⟨hget, -⟩
  · refine ⟨[.char '\n', .char '\n'], by unfold IsVoid; decide, ?_⟩
    rw [hremove, hcut, hdrop, hlength, htake, List.append_nil]
    rfl
  · have hone : s.start - 1 = x.length + 1 := by omega
    refine ⟨[.char '\n'], by unfold IsVoid; decide, ?_⟩
    rw [hremove, hcut, hdrop, hone, htake, List.append_nil]
    rfl
  · rw [← List.head?_drop, hdrop] at hget
    cases hget

end Placed

/-! ## Putting in -/

namespace Insertion

variable {a margin : Text} {c : CodePoint}

/-- What is pushed down has blanks with a line feed before it. -/
theorem exists_pushed_eq (hmargin : IsVoid margin) (ha : IsVoid a) (hc : isBlank c = false)
    (u : Text) : ∃ b, IsVoid b ∧ .char '\n' ∈ b ∧ pushed margin (a ++ c :: u) = b ++ c :: u := by
  unfold pushed
  split
  · have hdrop : (a ++ c :: u).dropWhile isIndent = a.dropWhile isIndent ++ c :: u := by
      rw [List.dropWhile_append]
      split
      · next hnil =>
        rw [List.isEmpty_iff.1 hnil, List.dropWhile_cons_of_neg (by simp [isIndent_eq_false hc])]
        rfl
      · rfl
    refine ⟨.char '\n' :: .char '\n' :: (margin ++ a.dropWhile isIndent), ?_,
      List.mem_cons_self, ?_⟩
    · apply IsVoid.cons_lineFeed
      apply IsVoid.cons_lineFeed
      intro d hd
      rcases List.mem_append.1 hd with hd | hd
      · exact hmargin d hd
      · exact ha d ((List.dropWhile_sublist _).subset hd)
    · rw [hdrop]
      simp
  · next hblank =>
    split
    · exact ⟨.char '\n' :: a, ha.cons_lineFeed, List.mem_cons_self, rfl⟩
    · refine ⟨a, ha, Classical.byContradiction fun hfeed => hblank ?_, rfl⟩
      -- otherwise there would be something on the line of the header
      have hbefore : ∀ d ∈ a, decide (d ≠ .char '\n') = true := by
        intro d hd
        rw [decide_eq_true_eq]
        rintro rfl
        exact hfeed hd
      have hne : c ≠ .char '\n' := ne_of_isBlank hc (by decide)
      rw [List.takeWhile_append_of_pos hbefore, List.takeWhile_cons_of_pos (by simpa using hne),
        Bool.not_eq_true', allBlank, List.all_eq_false]
      exact ⟨c, List.mem_append_right _ List.mem_cons_self, by simp [hc]⟩

end Insertion

end Graft
