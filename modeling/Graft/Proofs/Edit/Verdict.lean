import Graft.Proofs.Edit.FirstPatch
import Graft.Proofs.Edit.Removability
import Graft.Proofs.Fragment.Matching

/-!
# What a verdict says

A fragment is found correct when every line of it is found in its span. For the built-in fragments
this says more: whatever values they were put in with, they are found correct with the values that
are in the text, and with no others. And the span of the dependencies holds all of their lines only
if these are indented by spaces and tabs and nothing else stands on the last of them.

> `dependencies_of_missingTexts`: what is to be seen of dependencies that are found correct.
> `resolution_of_missingTexts`: what is to be seen of a resolution that is found correct.
-/

namespace Graft

open Text

/-! ## Quoted parts -/

section Quoted

variable {c : CodePoint} {x x' y y' k k' m m' r : Text}

/-- Where a character comes first, a text can be cut in one way only. -/
theorem Text.eq_of_append_cons (hx : c ∉ x) (hx' : c ∉ x') (h : x ++ c :: y = x' ++ c :: y') :
    x = x' ∧ y = y' := by
  induction x generalizing x' with
  | nil =>
    cases x' with
    | nil => exact ⟨rfl, (List.cons.inj h).2⟩
    | cons d x' =>
      obtain rfl : c = d := (List.cons.inj h).1
      simp at hx'
  | cons d x ih =>
    cases x' with
    | nil =>
      obtain rfl : d = c := (List.cons.inj h).1
      simp at hx
    | cons d' x' =>
      obtain ⟨rfl, hrest⟩ := List.cons.inj h
      rw [List.mem_cons, not_or] at hx hx'
      obtain ⟨rfl, hy⟩ := ih hx.2 hx'.2 hrest
      exact ⟨rfl, hy⟩

/-- Where it comes last, too. -/
theorem Text.eq_of_append_cons_last (hy : c ∉ y) (hy' : c ∉ y') (h : x ++ c :: y = x' ++ c :: y') :
    x = x' ∧ y = y' := by
  have hback : y.reverse ++ c :: x.reverse = y'.reverse ++ c :: x'.reverse := by
    have hreverse := congrArg List.reverse h
    simpa using hreverse
  obtain ⟨hy, hx⟩ := eq_of_append_cons (by simpa using hy) (by simpa using hy') hback
  exact ⟨List.reverse_inj.1 hx, List.reverse_inj.1 hy⟩

/-- In a line with one quoted part, no other quoted part is found. -/
theorem Text.eq_of_quoted_infix (hk : c ∉ k) (hm : c ∉ m) (hr : c ∉ r) (hk' : c ∉ k') (hm' : c ∉ m')
    (h : k' ++ c :: (m' ++ [c]) <:+: k ++ c :: (m ++ c :: r)) : m' = m := by
  obtain ⟨x, y, hxy⟩ := h
  have hcount := congrArg (List.count c) hxy
  simp only [List.count_append, List.count_cons_self, List.count_nil,
    List.count_eq_zero_of_not_mem hk, List.count_eq_zero_of_not_mem hm,
    List.count_eq_zero_of_not_mem hr, List.count_eq_zero_of_not_mem hk',
    List.count_eq_zero_of_not_mem hm'] at hcount
  have hx : c ∉ x ++ k' := by
    rw [List.mem_append, not_or]
    exact ⟨List.count_eq_zero.1 (by omega), hk'⟩
  have hsplit : (x ++ k') ++ c :: (m' ++ c :: y) = k ++ c :: (m ++ c :: r) := by
    rw [← hxy]
    simp
  obtain ⟨-, hrest⟩ := eq_of_append_cons hx hk hsplit
  exact (eq_of_append_cons hm' hm hrest).1

end Quoted

/-! ## Lines that are taken -/

section Taken

variable {t u v x p l line : Text} {f : Fragment} {s : Span} {ls : List Text}

/-- The lines that are taken are the first ones, each fits a pattern, and there are no more of them
than patterns. -/
theorem Span.takeDeclarations_lines (f : Fragment) (stop : Nat) (lines : List Text) :
    ∃ k, takeDeclarations f.patterns stop lines =
        (stop + ((lines.take k).flatMap (.char '\n' :: ·)).length, k) ∧ k ≤ f.patterns.length ∧
      ∀ l ∈ lines.take k, ∃ p ∈ f.patterns, Declaration.fits p l = true := by
  have hheads : ∀ l ∈ (Text.lines (trimLineFeeds f.template)).takeWhile Declaration.isDeclaration,
      Declaration.isDeclaration l = true :=
    fun l hl => List.all_eq_true.1 List.all_takeWhile l hl
  obtain ⟨k, assigned, htaken, hle, hsub, hmatches⟩ := exists_takeDeclarations hheads stop lines
  refine ⟨k, htaken, ?_, fun l hl => ?_⟩
  · have hlength := hmatches.length_eq
    rw [List.length_take, Nat.min_eq_left hle] at hlength
    rw [Fragment.patterns, List.length_map, ← hlength]
    exact hsub.length_le
  · obtain ⟨⟨i, hi⟩, rfl⟩ := List.get_of_mem hl
    have hi' : i < assigned.length := hmatches.length_eq ▸ hi
    have hmem := hsub.subset (List.get_mem assigned ⟨i, hi'⟩)
    exact ⟨_, List.mem_map_of_mem hmem,
      (Declaration.fits_iff (hheads _ hmem)).2 (hmatches.get hi' hi)⟩

/-- A pattern that is in none of some lines is not found in a text that they are the lines of, the
first of them apart. -/
theorem Text.exists_mem_of_infix (hp : .char '\n' ∉ p) (hne : p ≠ []) (hline : search p line = none)
    (h : p <:+: line ++ ls.flatMap (.char '\n' :: ·)) : ∃ l ∈ ls, p <:+: l := by
  refine Classical.byContradiction fun hnot => search_eq_none_iff.1 ?_ h
  have hlines : ∀ l ∈ ls, search p l = none := by
    intro l hl
    rw [search_eq_none_iff]
    exact fun hin => hnot ⟨l, hl, hin⟩
  cases ls with
  | nil => simpa using hline
  | cons l ls =>
    have hrest := search_flatMap hp hne hlines
    rw [List.flatMap_cons, List.cons_append] at hrest ⊢
    rw [search_line hp hline,
      search_eq_none_of_isInfix hrest (List.suffix_cons (CodePoint.char '\n') _).isInfix]
    rfl

/-- A line feed before the marker stays outside of the span. -/
theorem Span.lt_start {i j : Nat} (hfeed : t[i]? = some (.char '\n')) (hij : i < j)
    (hj : j < t.length) (hs : ofMarker t f j = .ok s) : i < s.start := by
  have hline := lt_lineStart hfeed hij
  rw [(ofMarker_eq_ok hs hj).1]
  split
  · exact hline
  · exact hij

/-- The span of a fragment without a block ends with the last of the lines that are taken, or with the
line feed behind it. -/
theorem Span.exists_take_stop (hblock : f.block = none) (hmarker : .char '\n' ∉ f.marker)
    (ht : t = v ++ (f.marker ++ .char '\n' :: u)) (hs : ofMarker t f v.length = .ok s) :
    ∃ k ≤ f.patterns.length, (∀ l ∈ (splitLines u).take k, ∃ q ∈ f.patterns,
        Declaration.fits q l = true) ∧
      t.take s.stop <+:
        (v ++ f.marker) ++ ((splitLines u).take k ++ [[]]).flatMap (.char '\n' :: ·) := by
  have hend : lineEnd t v.length = (v ++ f.marker).length := by
    rw [ht, lineEnd_append hmarker (.inr ⟨u, rfl⟩)]
  have hbelow : linesBelow t (v ++ f.marker).length = splitLines u := by
    rw [ht, ← List.append_assoc, linesBelow_append]
  obtain ⟨k, htaken, hle, hfits⟩ := takeDeclarations_lines f (v ++ f.marker).length (splitLines u)
  refine ⟨k, hle, hfits, ?_⟩
  have hparts : t = (v ++ f.marker ++ ((splitLines u).take k).flatMap (.char '\n' :: ·)) ++
      ((splitLines u).drop k).flatMap (.char '\n' :: ·) := by
    rw [List.append_assoc, ← List.flatMap_append, List.take_append_drop, flatMap_cons_splitLines,
      ht, List.append_assoc]
  unfold ofMarker at hs
  dsimp only at hs
  rw [hend, hbelow, htaken, hblock] at hs
  dsimp only at hs
  split at hs
  · cases hs
  · next stop hstop =>
    split at hstop
    · cases hstop
    · cases hstop
      cases hs
      dsimp only
      rw [List.flatMap_append, ← List.append_assoc, ← List.length_append]
      generalize v ++ f.marker ++ ((splitLines u).take k).flatMap (.char '\n' :: ·) = w at hparts
      split
      · next hfeed =>
        rw [List.take_add_one, eq_of_beq hfeed, hparts, List.take_left]
        exact List.prefix_refl _
      · rw [hparts, List.take_left]
        exact List.prefix_append _ _

/-- What is found in the span of a fragment without a block, but not on the line of its marker, is
found in a line that is taken. -/
theorem Span.exists_line_of_infix (hblock : f.block = none) (hmarker : .char '\n' ∉ f.marker)
    (hp : .char '\n' ∉ p) (hne : p ≠ []) (hline : search p (line ++ f.marker) = none)
    (ht : t = x ++ .char '\n' :: (line ++ (f.marker ++ .char '\n' :: u)))
    (hs : ofMarker t f (x ++ .char '\n' :: line).length = .ok s) (h : p <:+: s.text t) :
    ∃ k ≤ f.patterns.length, (∀ l ∈ (splitLines u).take k, ∃ q ∈ f.patterns,
        Declaration.fits q l = true) ∧ ∃ l ∈ (splitLines u).take k, p <:+: l := by
  have hsplit : t = (x ++ .char '\n' :: line) ++ (f.marker ++ .char '\n' :: u) := by
    rw [ht]
    simp
  -- the span starts on the line of the marker
  have hstart : x.length < s.start := by
    have hfeed : t[x.length]? = some (.char '\n') := by
      rw [ht, List.getElem?_append_right (Nat.le_refl _), Nat.sub_self]
      rfl
    refine lt_start hfeed ?_ ?_ hs
    · rw [List.length_append, List.length_cons]
      omega
    · rw [hsplit]
      simp only [List.length_append, List.length_cons]
      omega
  obtain ⟨k, hle, hfits, hstop⟩ := exists_take_stop hblock hmarker hsplit hs
  have hinfix : s.text t <:+: (line ++ f.marker) ++
      ((splitLines u).take k ++ [[]]).flatMap (.char '\n' :: ·) := by
    have hdrop : s.text t <:+: (t.take s.stop).drop (x.length + 1) := by
      rw [Span.text, slice, ← Nat.add_sub_cancel' (Nat.succ_le_of_lt hstart), ← List.drop_drop]
      exact (List.drop_suffix _ _).isInfix
    refine hdrop.trans ?_
    have hfront : (x ++ .char '\n' :: line ++ f.marker) ++
        ((splitLines u).take k ++ [[]]).flatMap (.char '\n' :: ·) =
        (x ++ [.char '\n']) ++ ((line ++ f.marker) ++
          ((splitLines u).take k ++ [[]]).flatMap (.char '\n' :: ·)) := by simp
    have hone : x.length + 1 = (x ++ [CodePoint.char '\n']).length := by simp
    rw [hfront] at hstop
    obtain ⟨w, hw⟩ := hstop
    have hcut := congrArg (List.drop (x.length + 1)) hw
    rw [hone, List.drop_left, List.drop_append] at hcut
    rw [hone, ← hcut]
    exact (List.prefix_append _ _).isInfix
  obtain ⟨l, hl, hpl⟩ := exists_mem_of_infix hp hne hline (h.trans hinfix)
  refine ⟨k, hle, hfits, l, ?_, hpl⟩
  rcases List.mem_append.1 hl with hl | hl
  · exact hl
  · rw [List.mem_singleton.1 hl, List.infix_nil] at hpl
    exact absurd hpl hne

/-- The lines of joined lines with something behind them. -/
theorem Text.exists_splitLines_join (hls : ∀ l ∈ ls, .char '\n' ∉ l)
    (hl : .char '\n' ∉ l) (u : Text) :
    ∃ first below, splitLines u = first :: below ∧
      splitLines (join [.char '\n'] (ls ++ [l]) ++ u) = ls ++ (l ++ first) :: below := by
  obtain ⟨first, below, hu⟩ : ∃ first below, splitLines u = first :: below :=
    List.exists_cons_of_ne_nil (splitLines_ne_nil u)
  refine ⟨first, below, hu, ?_⟩
  induction ls with
  | nil => exact splitLines_append_left hl hu
  | cons m ms ih =>
    obtain ⟨hm, hms⟩ := List.forall_mem_cons.1 hls
    rw [List.cons_append, join_cons (by simp), List.append_assoc]
    show splitLines (m ++ .char '\n' :: (join [.char '\n'] (ms ++ [l]) ++ u)) = _
    rw [splitLines_append hm, ih hms]
    rfl

theorem Text.opensIndented_of_all (h : u.all isIndent = true) : OpensIndented u := by
  rw [OpensIndented, List.all_eq_true]
  exact fun c hc => List.all_eq_true.1 h c ((List.takeWhile_prefix _).subset hc)

/-- A text whose first line is indentation opens indented. -/
theorem Text.opensIndented_of_splitLines {first : Text} {below : List Text}
    (hu : splitLines u = first :: below) (h : first.all isIndent = true) : OpensIndented u := by
  obtain ⟨-, ⟨-, rfl⟩ | ⟨rest, rfl, -⟩⟩ := splitLines_eq_cons hu
  · exact opensIndented_of_all h
  · exact (opensIndented_of_all h).append rest

end Taken

/-- What is required of a fragment that lacks nothing is found in its span. -/
theorem infix_of_missingTexts {t text : Text} {f : Fragment} {versions : VersionSet} {s : Span}
    {required : List Text} (h : missingTexts t f versions = .ok [])
    (hrequired : f.requiredTexts versions = .ok required) (hs : spanFrom t f 0 = .ok (some s))
    (htext : text ∈ required) : text <:+: s.text t := by
  rw [missingTexts, hrequired, hs] at h
  have hnil : required.filter (!(s.text t).contains ·) = [] := Except.ok.inj h
  have hnot := List.filter_eq_nil_iff.1 hnil text htext
  rw [Bool.not_eq_true', Bool.not_eq_false] at hnot
  exact contains_iff.1 hnot

theorem ofMarker_of_spanFrom {t : Text} {f : Fragment} {s : Span} {i : Nat}
    (hsearch : search f.marker t = some i) (hs : spanFrom t f 0 = .ok (some s)) :
    Span.ofMarker t f i = .ok s := by
  have hfrom : searchFrom f.marker t 0 = some i := by
    rw [searchFrom, if_pos (Nat.zero_le _), List.drop_zero, hsearch]
    rfl
  rw [spanFrom, hfrom] at hs
  dsimp only at hs
  obtain ⟨s', hs', heq⟩ := exists_of_map_eq_ok hs
  rw [hs', Option.some.inj heq]

/-- What a span has of the lines above its marker is nothing. -/
theorem text_infix_of_ofMarker {x b : Text} {f : Fragment} {s : Span} (hb : b ≠ [])
    (h : Span.ofMarker ((x ++ [.char '\n']) ++ b) f (x ++ [CodePoint.char '\n']).length = .ok s) :
    s.text ((x ++ [.char '\n']) ++ b) <:+: b := by
  have hstart : (x ++ [CodePoint.char '\n']).length ≤ s.start := by
    have hfeed : ((x ++ [.char '\n']) ++ b)[x.length]? = some (.char '\n') := by
      rw [List.getElem?_append_left (by simp), List.getElem?_concat_length]
    have hlt : (x ++ [CodePoint.char '\n']).length < ((x ++ [CodePoint.char '\n']) ++ b).length :=
      Nat.lt_of_lt_of_eq (Nat.lt_add_of_pos_right (List.length_pos_iff.2 hb))
        List.length_append.symm
    have hone : (x ++ [CodePoint.char '\n']).length = x.length + 1 := by simp
    rw [hone] at h hlt ⊢
    exact Span.lt_start hfeed (Nat.lt_succ_self _) hlt h
  rw [Span.text, slice, List.drop_take]
  refine (List.take_prefix _ _).isInfix.trans ?_
  rw [← Nat.add_sub_cancel' hstart, ← List.drop_drop, List.drop_left]
  exact (List.drop_suffix _ _).isInfix

namespace Defaults

open Declaration Insertion

variable {V W : VersionSet} {before margin t y l : Text}

/-! ## The dependencies -/

theorem requiredTexts_dependencies (h : Fills V) :
    dependencies.requiredTexts V = .ok (dependencyLines V) := by
  have hlines : lines (join [.char '\n'] (dependencyLines V)) = dependencyLines V :=
    lines_join fun l hl => not_isLineBreak_of_mem_dependencyLines h hl
  -- a line starts with its keyword and ends with a quote
  have htrim : ∀ l ∈ dependencyLines V, trim l = l ∧ l.head? = some (.char 'i') := by
    intro l hl
    obtain ⟨e, -, rfl⟩ := List.mem_map.1 hl
    have hlast : (lineStart e.1 ++ valueOf V e.2 ++ [CodePoint.char '\'']).getLast? =
        some (.char '\'') := by
      rw [List.getLast?_append]
      rfl
    have hright := trimRight_append hlast (by decide) []
    rw [List.append_nil] at hright
    refine ⟨?_, by rw [lineStart_eq]; rfl⟩
    rw [lineStart_eq] at hright ⊢
    exact hright.trans (List.append_nil _)
  have hfilter : (dependencyLines V).filter (!Fragment.saysNothing ·) = dependencyLines V := by
    rw [List.filter_eq_self]
    intro l hl
    obtain ⟨htrim, hhead⟩ := htrim l hl
    obtain ⟨r, rfl⟩ := List.head?_eq_some_iff.1 hhead
    rw [Fragment.saysNothing, htrim]
    rfl
  have hmap : (dependencyLines V).map trim = dependencyLines V := by
    rw [List.map_congr_left (g := id) fun l hl => (htrim l hl).1, List.map_id]
  rw [Fragment.requiredTexts, body_dependencies h]
  show Except.ok (((lines (join [.char '\n'] (dependencyLines V))).filter
    (!Fragment.saysNothing ·)).map trim) = _
  rw [hlines, hfilter, hmap]

/-- The keyword of the dependencies. -/
def keyword : Text := "implementation ".toText

/-- A line of the dependencies has one quoted part, a library and a version. -/
theorem line_eq (library version trail : Text) :
    lineStart library ++ version ++ [.char '\''] ++ trail =
      keyword ++ .char '\'' :: ((library ++ .char ':' :: version) ++ .char '\'' :: trail) := by
  have hstart : "implementation '".toText = keyword ++ [.char '\''] := by
    unfold keyword
    repeat rw [String.toText_ofList]
    rfl
  unfold lineStart
  rw [hstart]
  generalize keyword = k
  simp

theorem quote_not_mem_library {e : Text × Text} (he : e ∈ libraries) : .char '\'' ∉ e.1 := by
  have h : ∀ e ∈ libraries, .char '\'' ∉ e.1 := by
    unfold libraries
    repeat rw [String.toText_ofList]
    decide
  exact h e he

theorem quote_not_mem_value (h : Fills V) {e : Text × Text} (he : e ∈ libraries) :
    .char '\'' ∉ e.1 ++ .char ':' :: valueOf V e.2 := by
  obtain ⟨-, -, hvalue⟩ := h.valueOf (key_of_mem_libraries he)
  rw [List.mem_append, List.mem_cons, not_or, not_or]
  exact ⟨quote_not_mem_library he, by decide, not_mem_of_all (by decide) hvalue⟩

theorem quote_not_mem_append_keyword (h : .char '\'' ∉ margin) :
    .char '\'' ∉ margin ++ keyword := by
  have hkeyword : .char '\'' ∉ keyword := by
    unfold keyword
    rw [String.toText_ofList]
    decide
  rw [List.mem_append, not_or]
  exact ⟨h, hkeyword⟩

theorem colon_not_mem_valueOf (h : Fills V) {e : Text × Text} (he : e ∈ libraries) :
    .char ':' ∉ valueOf V e.2 := by
  obtain ⟨-, -, hvalue⟩ := h.valueOf (key_of_mem_libraries he)
  exact not_mem_of_all (by decide) hvalue

/-- No library is listed twice. -/
theorem eq_of_library_eq {d e : Text × Text} (hd : d ∈ libraries) (he : e ∈ libraries)
    (h : d.1 = e.1) : d = e := by
  have hdistinct : ∀ d ∈ libraries, ∀ e ∈ libraries, d.1 = e.1 → d = e := by
    unfold libraries
    repeat rw [String.toText_ofList]
    decide
  exact hdistinct d hd e he h

/-- A line that fits a pattern of the dependencies has one quoted part, too. -/
theorem exists_of_fits_dependencies (h : ∃ p ∈ dependencies.patterns, fits p l = true) :
    ∃ indent quoted trail,
    l = (indent ++ keyword) ++ .char '\'' :: (quoted ++ .char '\'' :: trail) ∧
      indent.all isIndent = true ∧ trail.all isIndent = true ∧ .char '\'' ∉ quoted := by
  obtain ⟨p, hp, hfits⟩ := h
  rw [patterns_dependencies] at hp
  obtain ⟨g, hg, rfl⟩ := List.mem_map.1 hp
  obtain ⟨indent, gap, trail, rfl, hindent, hgap, htrail⟩ := exists_of_fits_pair hfits
  refine ⟨indent, g.1 ++ .char ':' :: gap, trail, ?_, hindent, htrail, ?_⟩
  · rw [List.append_assoc indent, ← line_eq]
    simp
  · have hquote : .char '\'' ∉ gap := by
      intro hmem
      have hvalue := List.all_eq_true.1 hgap _ hmem
      revert hvalue
      decide
    rw [List.mem_append, List.mem_cons, not_or, not_or]
    exact ⟨quote_not_mem_library hg, by decide, hquote⟩

/-- A line of the dependencies, with other values, is found in a line that fits one of their
patterns only if the values are those of the line, and nothing else is on it but indentation. -/
theorem line_of_infix (hV : Fills V) (hW : Fills W) (hmargin : .char '\'' ∉ margin)
    {e d : Text × Text} (he : e ∈ libraries) (hd : d ∈ libraries) {trail : Text}
    (hl : l = margin ++ (lineStart d.1 ++ valueOf V d.2 ++ [.char '\''] ++ trail))
    (hfits : ∃ p ∈ dependencies.patterns, fits p l = true)
    (h : lineStart e.1 ++ valueOf W e.2 ++ [.char '\''] <:+: l) :
    margin.all isIndent = true ∧ trail.all isIndent = true ∧ e = d ∧
      valueOf W e.2 = valueOf V d.2 := by
  obtain ⟨indent, quoted, trail', hfitted, hindent, htrail, hquoted⟩ :=
    exists_of_fits_dependencies hfits
  have hfront := quote_not_mem_append_keyword (not_mem_of_isIndent (by decide) hindent)
  -- the line that is found has the quoted part of the line that fits
  have hfound : e.1 ++ .char ':' :: valueOf W e.2 = quoted := by
    have hline := line_eq e.1 (valueOf W e.2) []
    rw [List.append_nil] at hline
    rw [hline, hfitted] at h
    exact eq_of_quoted_infix hfront hquoted (not_mem_of_isIndent (by decide) htrail)
      (quote_not_mem_append_keyword List.not_mem_nil) (quote_not_mem_value hW he) h
  -- and so has the line that was put in
  have hput : (margin ++ keyword) ++
      .char '\'' :: ((d.1 ++ .char ':' :: valueOf V d.2) ++ .char '\'' :: trail) =
      (indent ++ keyword) ++ .char '\'' :: (quoted ++ .char '\'' :: trail') := by
    rw [← hfitted, hl, line_eq, List.append_assoc]
  obtain ⟨hmargins, hrest⟩ := eq_of_append_cons (quote_not_mem_append_keyword hmargin) hfront hput
  obtain ⟨hsame, rfl⟩ := eq_of_append_cons (quote_not_mem_value hV hd) hquoted hrest
  obtain rfl := List.append_cancel_right hmargins
  rw [← hfound] at hsame
  obtain ⟨hlibrary, hvalue⟩ :=
    eq_of_append_cons_last (colon_not_mem_valueOf hV hd) (colon_not_mem_valueOf hW he) hsame
  exact ⟨hindent, htrail, (eq_of_library_eq hd he hlibrary).symm, hvalue.symm⟩

theorem lineFeed_not_mem_line (hV : Fills V) {e : Text × Text} (he : e ∈ libraries) :
    .char '\n' ∉ lineStart e.1 ++ valueOf V e.2 ++ [.char '\''] := by
  intro hmem
  have hbreak := (not_isLineBreak_of_mem_dependencyLines hV (List.mem_map_of_mem he)).2 _ hmem
  revert hbreak
  decide

/-- On the line of the marker there is no quote, so that no line of the dependencies is found there. -/
theorem search_line_eq_none (hquote : .char '\'' ∉ margin) (library version : Text) :
    search (lineStart library ++ version ++ [.char '\''])
    (margin ++ dependencies.marker) = none := by
  have hmarker : .char '\'' ∉ dependencyMarker := by
    unfold dependencyMarker
    rw [String.toText_ofList]
    decide
  rw [search_eq_none_iff]
  intro hin
  have hmem := hin.subset (List.mem_append_right _ (List.mem_singleton_self (CodePoint.char '\'')))
  rcases List.mem_append.1 hmem with hmem | hmem
  · exact hquote hmem
  · exact hmarker hmem

/-- The first lines of a block of dependencies are those of the libraries, and only the line of the last
one has what is behind the block on it. -/
theorem exists_library_of_mem_take (hV : Fills V) (hfeed : .char '\n' ∉ margin) (y : Text) :
    ∃ init last first below, libraries = init ++ [last] ∧ last ∉ init ∧
      splitLines y = first :: below ∧
      ∀ k ≤ libraries.length, ∀ l ∈ (splitLines (dependencyBlock V margin ++ y)).take k,
        ∃ d ∈ libraries, ∃ trail,
          l = margin ++ (lineStart d.1 ++ valueOf V d.2 ++ [.char '\''] ++ trail) ∧
            (d ∈ init ∨ trail = first) := by
  have hlast : libraries = libraries.dropLast ++
      [("com.google.guava:listenablefuture".toText, "listenablefuture".toText)] := rfl
  have hnodup : libraries.Nodup := by
    unfold libraries
    repeat rw [String.toText_ofList]
    decide
  have hnot : ∀ e ∈ libraries,
      .char '\n' ∉ margin ++ (lineStart e.1 ++ valueOf V e.2 ++ [.char '\'']) := by
    intro e he
    rw [List.mem_append, not_or]
    exact ⟨hfeed, lineFeed_not_mem_line hV he⟩
  generalize libraries.dropLast = init at hlast
  generalize ("com.google.guava:listenablefuture".toText, "listenablefuture".toText) = last at hlast
  have hinit : ∀ e ∈ init, e ∈ libraries := fun e he => hlast ▸ List.mem_append_left _ he
  have hmem : last ∈ libraries := hlast ▸ List.mem_append_right _ (List.mem_singleton_self last)
  have hnone : ∀ l ∈ init.map fun e => margin ++ (lineStart e.1 ++ valueOf V e.2 ++ [.char '\'']),
      .char '\n' ∉ l := by
    intro l hl
    obtain ⟨e, he, rfl⟩ := List.mem_map.1 hl
    exact hnot e (hinit e he)
  obtain ⟨first, below, hy, hlines⟩ := exists_splitLines_join hnone (hnot last hmem) y
  have hblock : dependencyBlock V margin = join [.char '\n']
      ((init.map fun e => margin ++ (lineStart e.1 ++ valueOf V e.2 ++ [.char '\''])) ++
        [margin ++ (lineStart last.1 ++ valueOf V last.2 ++ [.char '\''])]) := by
    rw [dependencyBlock, dependencyLines, hlast, List.map_map, List.map_append]
    rfl
  rw [← hblock] at hlines
  refine ⟨init, last, first, below, hlast, ?_, hy, fun k hk l hl => ?_⟩
  · rw [hlast, List.nodup_append] at hnodup
    exact fun hin => hnodup.2.2 last hin last (List.mem_singleton_self last) rfl
  · rw [hlines, List.take_append, List.length_map, List.mem_append] at hl
    rcases hl with hl | hl
    · obtain ⟨d, hd, rfl⟩ := List.mem_map.1 (List.mem_of_mem_take hl)
      exact ⟨d, hinit d hd, [], by rw [List.append_nil], .inl hd⟩
    · rw [hlast, List.length_append] at hk
      have hone : k - init.length ≤ 1 := Nat.sub_le_iff_le_add'.2 hk
      have htake := List.take_subset_take_left _ hone hl
      rw [List.take_one, List.head?_cons, Option.toList_some, List.mem_singleton] at htake
      rw [htake, List.append_assoc]
      exact ⟨last, hmem, first, rfl, .inr rfl⟩

/-- **Dependencies that are found correct** are indented by spaces and tabs, nothing else stands on
their last line, and the values are those that are in the text. -/
theorem dependencies_of_missingTexts (hV : Fills V) (hW : Fills W) (hbefore : Unmarked before)
    (hmargin : allBlank margin = true) (hfeed : .char '\n' ∉ margin)
    (h : missingTexts (withDependencies V before margin y) dependencies W = .ok []) :
    margin.all isIndent = true ∧ OpensIndented y ∧ dependencyLines V = dependencyLines W := by
  have hquote : .char '\'' ∉ margin := not_mem_of_allBlank (by decide) hmargin
  have hslash : .char '/' ∉ margin := not_mem_of_allBlank (by decide) hmargin
  have hmarker := fragmentSet.lineFeed_not_mem_marker dependencies_mem
  obtain ⟨required, hrequired, hspan⟩ := exists_span_of_required h
  obtain rfl : dependencyLines W = required := by
    rw [requiredTexts_dependencies hW] at hrequired
    exact Except.ok.inj hrequired
  obtain ⟨s, hs⟩ := hspan (dependencyLines_ne_nil W)
  have hof := ofMarker_of_spanFrom (search_dependencyMarker hbefore hslash V y) hs
  obtain ⟨init, last, first, below, hlibraries, hlast, hy, hhost⟩ :=
    exists_library_of_mem_take hV hfeed y
  -- each line that is required is found in one of those that are taken
  have hfound : ∀ e ∈ libraries, margin.all isIndent = true ∧ valueOf W e.2 = valueOf V e.2 ∧
      (e ∈ init ∨ first.all isIndent = true) := by
    intro e he
    have hline : lineStart e.1 ++ valueOf W e.2 ++ [.char '\''] ∈ dependencyLines W :=
      List.mem_map_of_mem he
    have hne := (not_isLineBreak_of_mem_dependencyLines hW hline).1
    obtain ⟨k, hk, hfits, l, hl, hin⟩ := Span.exists_line_of_infix (f := dependencies) rfl hmarker
      (lineFeed_not_mem_line hW he) hne (search_line_eq_none hquote _ _) rfl hof
      (infix_of_missingTexts h hrequired hs hline)
    rw [patterns_dependencies, List.length_map] at hk
    obtain ⟨d, hd, trail, heq, hwhere⟩ := hhost k hk l hl
    obtain ⟨hindent, htrail, rfl, hvalue⟩ :=
      line_of_infix hV hW hquote he hd heq (hfits l hl) hin
    refine ⟨hindent, hvalue, ?_⟩
    rcases hwhere with hin | rfl
    · exact .inl hin
    · exact .inr htrail
  have hmem : last ∈ libraries :=
    hlibraries ▸ List.mem_append_right _ (List.mem_singleton_self last)
  obtain ⟨hindent, -, hwhere⟩ := hfound last hmem
  refine ⟨hindent, opensIndented_of_splitLines hy (hwhere.resolve_left hlast), ?_⟩
  exact List.map_congr_left fun e he => by rw [(hfound e he).2.1]

/-! ## The resolution -/

/-- What precedes the version on its line, but for the indentation. -/
def forceStart : Text := "force 'androidx.core:core:".toText

/-- The line with the version, but for the indentation. -/
def forceLine (V : VersionSet) : Text :=
  forceStart ++ valueOf V "androidx_core".toText ++ [.char '\'']

/-- The lines of the body above the version. -/
def linesAbove : List Text :=
  ["configurations.all \x7b".toText, "    resolutionStrategy \x7b".toText,
    "        exclude group: 'com.google.guava', module: 'listenablefuture'".toText]

/-- The lines of the body below the version. -/
def linesUnder : List Text :=
  ["    \x7d".toText, "\x7d".toText]

/-- The lines of the body. -/
def resolutionLines (V : VersionSet) : List Text :=
  linesAbove ++ ("        ".toText ++ forceLine V) :: linesUnder

theorem join_resolutionLines (V : VersionSet) :
    join [.char '\n'] (resolutionLines V) = resolutionBody V := by
  have hstart : resolutionStart = linesAbove.flatMap (· ++ [.char '\n']) ++
      ("        ".toText ++ forceStart) := by
    unfold resolutionStart linesAbove forceStart
    repeat rw [String.toText_append]
    repeat rw [String.toText_ofList]
    decide
  have hend : resolutionEnd = .char '\'' :: linesUnder.flatMap (.char '\n' :: ·) := by
    unfold resolutionEnd linesUnder
    repeat rw [String.toText_ofList]
    decide
  have habove : ∀ {ls : List Text} {l : Text} {ms : List Text},
      join [.char '\n'] (ls ++ l :: ms) =
        ls.flatMap (· ++ [.char '\n']) ++ (l ++ ms.flatMap (.char '\n' :: ·)) := by
    intro ls l ms
    induction ls with
    | nil => exact join_cons_lineFeed l ms
    | cons m ls ih =>
      rw [List.cons_append, join_cons (by simp), ih]
      simp
  rw [resolutionLines, habove, resolutionBody, hstart, hend, forceLine]
  generalize "        ".toText = indent
  simp

/-- The lines of the body break nowhere. -/
theorem not_isLineBreak_of_mem_resolutionLines (h : Fills V) {l : Text}
    (hl : l ∈ resolutionLines V) : l ≠ [] ∧ ∀ c ∈ l, isLineBreak c = false := by
  have hclosed : ∀ l ∈ linesAbove ++ linesUnder, l ≠ [] ∧ ∀ c ∈ l, isLineBreak c = false := by
    unfold linesAbove linesUnder
    repeat rw [String.toText_ofList]
    decide
  have hforce : ∀ c ∈ "        ".toText ++ forceStart, isLineBreak c = false := by
    unfold forceStart
    repeat rw [String.toText_ofList]
    decide
  rcases List.mem_append.1 hl with hl | hl
  · exact hclosed l (List.mem_append_left _ hl)
  · rcases List.mem_cons.1 hl with rfl | hl
    · refine ⟨by simp [forceLine], fun c hc => ?_⟩
      rw [forceLine, ← List.append_assoc, ← List.append_assoc, List.mem_append, List.mem_append,
        List.mem_singleton] at hc
      rcases hc with (hc | hc) | rfl
      · exact hforce c hc
      · obtain ⟨-, -, hvalue⟩ := h.valueOf core_mem_keys
        have hblank := isBlank_of_isVersionChar (List.all_eq_true.1 hvalue c hc)
        cases hbreak : isLineBreak c with
        | false => rfl
        | true =>
          rw [isBlank_of_isLineBreak hbreak] at hblank
          cases hblank
      · decide
    · exact hclosed l (List.mem_append_right _ hl)

theorem exists_requiredTexts_resolution (h : Fills V) : ∃ required,
    resolution.requiredTexts V = .ok required ∧ forceLine V ∈ required := by
  have hlines : lines (resolutionBody V) = resolutionLines V := by
    rw [← join_resolutionLines]
    exact lines_join fun l hl => not_isLineBreak_of_mem_resolutionLines h hl
  refine ⟨((lines (resolutionBody V)).filter (!Fragment.saysNothing ·)).map trim, ?_, ?_⟩
  · rw [Fragment.requiredTexts, body_resolution h]
    rfl
  · have hf : forceStart = .char 'f' :: forceStart.tail := by
      unfold forceStart
      rw [String.toText_ofList]
      rfl
    have htrim : trim ("        ".toText ++ forceLine V) = forceLine V := by
      have hlast : (forceLine V).getLast? = some (.char '\'') := by
        rw [forceLine, List.getLast?_append]
        rfl
      have hright := trimRight_append hlast (by decide) []
      rw [List.append_nil] at hright
      have hleft : trimLeft ("        ".toText ++ forceLine V) = forceLine V := by
        have hblank : ∀ c ∈ "        ".toText, isBlank c = true := by
          rw [String.toText_ofList]
          decide
        rw [trimLeft, List.dropWhile_append_of_pos hblank, forceLine, hf]
        rfl
      rw [trim, hleft, hright]
      exact List.append_nil _
    rw [hlines, List.mem_map]
    refine ⟨_, List.mem_filter.2 ⟨List.mem_append_right _ List.mem_cons_self, ?_⟩, htrim⟩
    rw [Fragment.saysNothing, htrim, forceLine, hf]
    rfl

/-- The line with the version is found in no other line. -/
theorem infix_forceLine (hW : Fills W) (h : forceLine W <:+: resolutionText V) :
    forceLine W <:+: "        ".toText ++ forceLine V := by
  have hlines : resolutionText V =
      resolutionMarker ++ (resolutionLines V ++ [[]]).flatMap (.char '\n' :: ·) := by
    have hne : resolutionLines V ≠ [] := by simp [resolutionLines]
    rw [List.flatMap_append, flatMap_cons_lineFeed hne, join_resolutionLines, resolutionText]
    exact List.append_assoc ..
  rw [hlines] at h
  have hfeed : .char '\n' ∉ forceLine W := by
    intro hmem
    have hbreak := (not_isLineBreak_of_mem_resolutionLines hW
      (List.mem_append_right _ List.mem_cons_self)).2 (.char '\n') (List.mem_append_right _ hmem)
    revert hbreak
    decide
  -- the other lines do not even have what precedes the version
  have hstart : forceStart <:+: forceLine W := by
    rw [forceLine, List.append_assoc]
    exact (List.prefix_append _ _).isInfix
  have hother : ∀ l ∈ resolutionMarker :: (linesAbove ++ linesUnder ++ [[]]),
      search forceStart l = none := by
    unfold resolutionMarker linesAbove linesUnder forceStart
    repeat rw [String.toText_ofList]
    decide
  have hnot : ∀ l ∈ resolutionMarker :: (linesAbove ++ linesUnder ++ [[]]),
      ¬ forceLine W <:+: l := by
    intro l hl hin
    exact search_eq_none_iff.1 (hother l hl) (hstart.trans hin)
  have hmarker : search (forceLine W) resolutionMarker = none :=
    search_eq_none_iff.2 (hnot resolutionMarker List.mem_cons_self)
  have hne : forceLine W ≠ [] := by simp [forceLine]
  obtain ⟨l, hl, hin⟩ := exists_mem_of_infix hfeed hne hmarker h
  rw [resolutionLines, List.mem_append, List.mem_append, List.mem_cons] at hl
  rcases hl with (habove | rfl | hunder) | hend
  · exact absurd hin (hnot l (by simp [habove]))
  · exact hin
  · exact absurd hin (hnot l (by simp [hunder]))
  · exact absurd hin (hnot l (by simp [List.mem_singleton.1 hend]))

/-- The quoted part of the line with the version is a library and the version. -/
theorem forceLine_eq (V : VersionSet) : forceLine V = "force ".toText ++
    .char '\'' :: (("androidx.core:core:".toText ++ valueOf V "androidx_core".toText) ++
      [.char '\'']) := by
  have hclosed : forceStart = "force ".toText ++ .char '\'' :: "androidx.core:core:".toText := by
    unfold forceStart
    repeat rw [String.toText_ofList]
    rfl
  rw [forceLine, hclosed]
  generalize "force ".toText = k
  generalize "androidx.core:core:".toText = m
  simp

/-- If it is found in the line of other versions, the version is the same. -/
theorem valueOf_of_forceLine_infix (hV : Fills V) (hW : Fills W)
    (h : forceLine W <:+: "        ".toText ++ forceLine V) :
    valueOf W "androidx_core".toText = valueOf V "androidx_core".toText := by
  have hlibrary : .char '\'' ∉ "androidx.core:core:".toText := by
    rw [String.toText_ofList]
    decide
  have hkeyword : .char '\'' ∉ "force ".toText := by
    rw [String.toText_ofList]
    decide
  have hindented : .char '\'' ∉ "        ".toText ++ "force ".toText := by
    repeat rw [String.toText_ofList]
    decide
  have hquoted : ∀ U : VersionSet, Fills U →
      .char '\'' ∉ "androidx.core:core:".toText ++ valueOf U "androidx_core".toText := by
    intro U hU
    rw [List.mem_append, not_or]
    exact ⟨hlibrary, not_mem_of_all (by decide) (hU.valueOf core_mem_keys).2.2⟩
  rw [forceLine_eq W, forceLine_eq V, ← List.append_assoc] at h
  have hsame :=
    eq_of_quoted_infix hindented (hquoted V hV) List.not_mem_nil hkeyword (hquoted W hW) h
  exact List.append_cancel_left hsame

/-- **A resolution that is found correct** has the values that are in the text. -/
theorem resolution_of_missingTexts (hV : Fills V) (hW : Fills W)
    (ht : search resolutionMarker t = none)
    (h : missingTexts (withResolution V t) resolution W = .ok []) :
    resolutionBody V = resolutionBody W := by
  have hsearch := search_withResolution V ht
  have hblank : t ++ [.char '\n', .char '\n'] = (t ++ [.char '\n']) ++ [.char '\n'] := by simp
  rw [withResolution_eq, hblank] at hsearch h
  generalize t ++ [.char '\n'] = x at hsearch h
  obtain ⟨required, hrequired, hforce⟩ := exists_requiredTexts_resolution hW
  obtain ⟨required', hrequired', hspan⟩ := exists_span_of_required h
  obtain rfl : required = required' := by
    rw [hrequired] at hrequired'
    exact Except.ok.inj hrequired'
  obtain ⟨s, hs⟩ := hspan (List.ne_nil_of_mem hforce)
  have hof := ofMarker_of_spanFrom hsearch hs
  have hin := infix_of_missingTexts h hrequired hs hforce
  -- the span starts on the line of the marker
  have htext : s.text ((x ++ [.char '\n']) ++ resolutionText V) <:+: resolutionText V := by
    have hne : resolutionText V ≠ [] :=
      List.append_ne_nil_of_right_ne_nil _ (List.cons_ne_nil _ _)
    exact text_infix_of_ofMarker hne hof
  have hsame := valueOf_of_forceLine_infix hV hW (infix_forceLine hW (hin.trans htext))
  rw [resolutionBody, resolutionBody, hsame]

end Defaults

end Graft
