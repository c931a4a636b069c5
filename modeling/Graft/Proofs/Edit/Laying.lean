import Graft.Proofs.Brace.Realigning
import Graft.Proofs.Edit.Below
import Graft.Proofs.Edit.Locating
import Graft.Proofs.Edit.Preservation
import Graft.Proofs.Edit.Removability

/-!
# Taking out what was laid

A fragment that goes below a header gets the margin of the block, line by line, and its blank lines
become empty. That does not keep its span from finding all of it: lines fit as before, and the block
that the fragment introduces is read as before (`Laid.indented`).

> `Placed.exists_remove`: what was placed can be taken out, and blanks apart, what is left is what
> stands around it.
-/

namespace Graft

open Text

variable {m t u x y z margin body : Text} {f : Fragment} {c : CodePoint} {p : Text}

/-! ## Lines with a margin -/

/-- The lines of a text, each behind a line feed, with a margin. -/
def Text.linesWith (margin t : Text) : Text :=
  (splitLines t).flatMap fun l => .char '\n' :: indentLine margin l

/-- A rendered fragment, with a margin. -/
theorem Insertion.indent_render (hstart : f.marker = .char '/' :: p)
    (hmarker : ∀ c ∈ f.marker, isLineBreak c = false)
    (hbody : ∀ c ∈ body, isLineBreak c = true → c = .char '\n') (hne : body ≠ [])
    (hlast : body.getLast? ≠ some (.char '\n')) (margin : Text) :
    indent margin (f.marker ++ .char '\n' :: body) =
    margin ++ (f.marker ++ linesWith margin body) := by
  have hline : indentLine margin f.marker = margin ++ f.marker := by
    rw [indentLine, hstart, allBlank, List.all_cons, show isBlank (.char '/') = false by decide]
    rfl
  rw [indent, lines_append hmarker, lines_eq_splitLines hbody hne hlast]
  show join [.char '\n']
      (indentLine margin f.marker :: (splitLines body).map (indentLine margin)) = _
  rw [join_cons_lineFeed, hline, List.flatMap_map, List.append_assoc]
  rfl

/-- Lines above some text are cut off it. -/
theorem Text.splitLines_below {lines : List Text} {r : Text} (hlines : ∀ l ∈ lines, .char '\n' ∉ l)
    (h : .char '\n' :: body = lines.flatMap (.char '\n' :: ·) ++ .char '\n' :: r) :
    splitLines body = lines ++ splitLines r := by
  induction lines generalizing body with
  | nil =>
    obtain rfl : body = r := by simpa using h
    rfl
  | cons l ls ih =>
    obtain ⟨hl, hls⟩ := List.forall_mem_cons.1 hlines
    obtain ⟨below, hbelow⟩ :
        ∃ below, .char '\n' :: below = ls.flatMap (.char '\n' :: ·) ++ .char '\n' :: r := by
      cases ls with
      | nil => exact ⟨r, rfl⟩
      | cons m ms => exact ⟨_, rfl⟩
    obtain rfl : body = l ++ .char '\n' :: below := by simpa [hbelow] using h
    rw [splitLines_append hl, ih hls hbelow]
    rfl

/-- Lines that fit do so with a margin. -/
theorem fits_indentLine {patterns : List Declaration.Pattern} {lines : List Text}
    (hpatterns : patterns ⊆ f.patterns) (hmargin : margin.all isIndent = true)
    (h : List.Forall₂ (fun p l => Declaration.fits p l = true) patterns lines) :
    List.Forall₂ (fun p l => Declaration.fits p l = true) patterns
      (lines.map (indentLine margin)) := by
  induction h with
  | nil => exact .nil
  | cons hfits _ ih =>
    obtain ⟨hp, hrest⟩ := List.cons_subset.1 hpatterns
    refine .cons ?_ (ih hrest)
    rw [indentLine, Declaration.allBlank_of_fits hp hfits, if_neg (by simp)]
    exact Declaration.fits_indent hmargin hfits

theorem not_mem_indentLine (hmargin : margin.all isIndent = true) (h : c ∉ t)
    (hc : isIndent c = false) : c ∉ indentLine margin t := by
  unfold indentLine
  split
  · exact List.not_mem_nil
  · rw [List.mem_append, not_or]
    exact ⟨not_mem_of_isIndent hc hmargin, h⟩

/-- With a margin, a header has the margin before its indentation, and its block is realigned. -/
theorem exists_linesWith_header {head inner : Text} {bs : List Brace}
    (hfeed : .char '\n' ∉ head) (hmargin : margin.all isIndent = true)
    (hinner : ScanState.start.Reads inner bs ScanState.start) :
    ∃ inner', linesWith margin (head ++ .char '{' :: (inner ++ [.char '}'])) =
        .char '\n' :: (margin ++ head ++ .char '{' :: (inner' ++ [.char '}'])) ∧
      ScanState.start.Reads inner' bs ScanState.start := by
  have hblanks : margin.IsMargin := by
    intro c hc
    refine ⟨isBlank_of_isIndent (List.all_eq_true.1 hmargin c hc), ?_⟩
    rintro rfl
    exact not_mem_of_isIndent (by decide) hmargin hc
  obtain ⟨l, ls, hls, hmem⟩ : ∃ l ls,
      splitLines (head ++ .char '{' :: (inner ++ [.char '}'])) = (head ++ l) :: ls ∧
        .char '{' ∈ l := by
    obtain ⟨l, ls, hsplit, hmem⟩ :=
      splitLines_eq_cons_of_ne (c := .char '{') (by decide) (inner ++ [.char '}'])
    exact ⟨l, ls, splitLines_append_left hfeed hsplit, hmem⟩
  have hblank : allBlank (head ++ l) = false := by
    rw [allBlank, List.all_eq_false]
    exact ⟨.char '{', List.mem_append_right _ hmem, by decide⟩
  have hnot : ∀ m ∈ ls, .char '\n' ∉ m := by
    intro m hm
    exact not_mem_of_mem_splitLines (t := head ++ .char '{' :: (inner ++ [.char '}']))
      (by rw [hls]; exact List.mem_cons_of_mem _ hm)
  have hreal := realigned_join hblanks hnot (head ++ l)
  rw [← hls, join_splitLines] at hreal
  have hsplit : head ++ .char '{' :: (inner ++ [.char '}']) =
      (head ++ [.char '{']) ++ (inner ++ [.char '}']) := by simp
  rw [hsplit] at hreal
  obtain ⟨rest, hrest, hbehind⟩ := hreal.of_append (by simp [hfeed])
  obtain ⟨inner', rfl, hwithin⟩ := hbehind.exists_concat (t := inner) rfl (by decide)
  refine ⟨inner', ?_, hwithin.reads hinner⟩
  have hfirst : linesWith margin (head ++ .char '{' :: (inner ++ [.char '}'])) =
      .char '\n' :: (margin ++ join [.char '\n'] ((head ++ l) :: ls.map (indentLine margin))) := by
    rw [linesWith, hls, List.flatMap_cons, indentLine, hblank, if_neg (by simp),
      join_cons_lineFeed, List.flatMap_map]
    simp
  rw [hfirst, hrest]
  simp

/-- **A fragment that is laid stays so with a margin.** -/
theorem Laid.indented (h : Laid f (.char '\n' :: body)) (hmargin : margin.all isIndent = true) :
    Laid f (linesWith margin body) := by
  generalize hu : .char '\n' :: body = u at h
  cases h with
  | @flat lines hblock hne hfits hlines =>
    obtain ⟨first, last, rfl⟩ : ∃ first last, lines = first ++ [last] :=
      ⟨_, _, (List.dropLast_append_getLast hne).symm⟩
    have hfirst : ∀ l ∈ first, .char '\n' ∉ l := fun l hl => hlines l (List.mem_append_left _ hl)
    have hsplit : splitLines body = first ++ [last] := by
      rw [splitLines_below (r := last) hfirst (by simpa using hu),
        splitLines_of_not_mem (hlines last (by simp))]
    have hmapped : (first ++ [last]).map (indentLine margin) ≠ [] := by simp
    have hall := Laid.flat hblock hmapped (fits_indentLine (fun _ h => h) hmargin hfits)
      fun l hl => by
        obtain ⟨l', hl', rfl⟩ := List.mem_map.1 hl
        exact not_mem_indentLine hmargin (hlines l' hl') (by decide)
    rw [linesWith, hsplit]
    rwa [List.flatMap_map] at hall
  | @block lines c name head inner bs hblock hhead hfeed hfits hlines hinner hlevel =>
    obtain ⟨inner', heq, hreads⟩ := exists_linesWith_header hfeed hmargin hinner
    obtain ⟨m, gap, rfl, hm, hgap⟩ := hhead
    have hhead' : IsHeader (c :: name) (margin ++ (m ++ (c :: name ++ gap))) :=
      ⟨margin ++ m, gap, by simp, by rw [List.all_append, hmargin, hm]; rfl, hgap⟩
    have hfeed' : .char '\n' ∉ margin ++ (m ++ (c :: name ++ gap)) := by
      rw [List.mem_append, not_or]
      exact ⟨not_mem_of_isIndent (by decide) hmargin, hfeed⟩
    have hall := Laid.block hblock hhead' hfeed' (fits_indentLine (fun _ h => h) hmargin hfits)
      (fun l hl => by
        obtain ⟨l', hl', rfl⟩ := List.mem_map.1 hl
        exact not_mem_indentLine hmargin (hlines l' hl') (by decide)) hreads hlevel
    rw [linesWith, splitLines_below hlines hu, List.flatMap_append]
    rw [linesWith] at heq
    rw [heq]
    rwa [List.flatMap_map] at hall

/-- A pattern that starts with no blank is not in lines with a margin, unless it is in them
without. -/
theorem search_linesWith (hp : .char '\n' ∉ c :: p) (hmargin : c ∉ margin)
    (h : search (c :: p) t = none) : search (c :: p) (linesWith margin t) = none := by
  have hlines : ∀ l ∈ (splitLines t).map (indentLine margin), search (c :: p) l = none := by
    intro l hl
    obtain ⟨l', hl', rfl⟩ := List.mem_map.1 hl
    have hpart : l' <:+: t := by
      have hjoin := infix_join [.char '\n'] hl'
      rwa [join_splitLines] at hjoin
    unfold indentLine
    split
    · rfl
    · rw [search_append hmargin, search_eq_none_of_isInfix h hpart]
      rfl
  have hall := search_flatMap hp (List.cons_ne_nil c p) hlines
  rwa [List.flatMap_map] at hall

theorem Laid.ne_nil (h : Laid f (.char '\n' :: body)) : body ≠ [] := by
  rintro rfl
  generalize hu : [CodePoint.char '\n'] = u at h
  cases h with
  | flat hblock hne hfits hlines =>
    -- an only line that is empty fits nothing
    generalize hpatterns : f.patterns = ps at hfits
    cases hfits with
    | nil => exact hne rfl
    | @cons p l ps ls hl hrest =>
      obtain rfl : l = [] := by
        have heq : [] = l ++ ls.flatMap (.char '\n' :: ·) := by simpa using hu
        exact (List.append_eq_nil_iff.1 heq.symm).1
      have hp : p ∈ f.patterns := hpatterns ▸ List.mem_cons_self
      have hblank := Declaration.allBlank_of_fits hp hl
      cases hblank
  | @block lines c name head inner =>
    have hmem : CodePoint.char '{' ∈ [CodePoint.char '\n'] := by
      rw [hu]
      simp
    revert hmem
    decide

/-! ## Taking it out -/

/-- What precedes a span is, blanks apart, what precedes the marker. -/
theorem Span.solids_take_start {s : Span} (hs : Span.ofMarker t f x.length = .ok s)
    (hlt : x.length < t.length) (ht : x <+: t) : solids (t.take s.start) = solids x := by
  have htake : t.take x.length = x := (List.prefix_iff_eq_take.1 ht).symm
  obtain ⟨hstart, -, -⟩ := Span.ofMarker_eq_ok hs hlt
  rw [hstart]
  split
  · next hblank =>
    have hsplit := take_append_slice (lineStart_le t x.length) t
    rw [htake] at hsplit
    have hsolids := congrArg solids hsplit
    rwa [solids_append, solids_eq_nil_iff.2 hblank, List.append_nil] at hsolids
  · rw [htake]

/-- A fragment stands behind `x` and before `z` as its span takes it, and its marker is nowhere else. -/
structure Placed (f : Fragment) (x u z : Text) : Prop where
  laid : Laid f u
  opens : OpensIndented z
  first : search f.marker (x ++ (f.marker ++ (u ++ z))) = some x.length
  once : search f.marker (u ++ z) = none

/-- The span of what is placed on a line of its own starts with the line. It takes indentation that
follows, and a line feed. -/
theorem Placed.exists_span (h : Placed f (y ++ m) u z) (hfeed : .char '\n' ∉ f.marker)
    (hne : f.marker ≠ []) (hy : y = [] ∨ y.getLast? = some (.char '\n'))
    (hm : m.all isIndent = true) :
    ∃ s sp rest, spanFrom ((y ++ m) ++ (f.marker ++ (u ++ z))) f 0 = .ok (some s) ∧
      z = sp ++ rest ∧ sp.all isIndent = true ∧ s.start = y.length ∧ s.start ≤ s.stop ∧
      ((y ++ m) ++ (f.marker ++ (u ++ z))).drop s.stop = Declaration.dropOne (.char '\n') rest := by
  obtain ⟨hlaid, hz, hfirst, -⟩ := h
  obtain ⟨s, sp, rest, hs, rfl, hsp, hdrop, hstop⟩ := hlaid.exists_span hfeed hz (y ++ m)
  have hmarker := List.length_pos_iff.2 hne
  have hlt : (y ++ m).length < ((y ++ m) ++ (f.marker ++ (u ++ (sp ++ rest)))).length := by
    simp only [List.length_append]
    omega
  -- there are only blanks before the marker
  have hstart : s.start = y.length := by
    have hline := lineStart_append hy (not_mem_of_isIndent (by decide) hm)
      (f.marker ++ (u ++ (sp ++ rest)))
    have hslice : slice ((y ++ m) ++ (f.marker ++ (u ++ (sp ++ rest)))) y.length (y ++ m).length =
        m := by
      rw [slice, List.take_left, List.drop_left]
    rw [(Span.ofMarker_eq_ok hs hlt).1, hline, hslice, if_pos (allBlank_of_isIndent hm)]
  refine ⟨s, sp, rest, spanFrom_eq hfirst hs, rfl, hsp, hstart, ?_, hdrop⟩
  simp only [List.length_append] at hstop
  omega

/-- **What was placed can be taken out.** The removal succeeds, and blanks apart, it leaves what stands
around the fragment. -/
theorem Placed.exists_remove (h : Placed f x u z) (hfeed : .char '\n' ∉ f.marker)
    (hne : f.marker ≠ []) :
    ∃ t, remove (x ++ (f.marker ++ (u ++ z))) f = .ok t ∧ solids t = solids x ++ solids z := by
  obtain ⟨hlaid, hz, hfirst, hrest⟩ := h
  obtain ⟨s, sp, rest, hs, rfl, hsp, hdrop, hstop⟩ := hlaid.exists_span hfeed hz x
  have hspans := spans_of_once hfeed hne (count_eq_one hne hfirst hrest) (spanFrom_eq hfirst hs)
  have hprefix : x <+: x ++ (f.marker ++ (u ++ (sp ++ rest))) := List.prefix_append _ _
  have hlt : x.length < (x ++ (f.marker ++ (u ++ (sp ++ rest)))).length := by
    have := List.length_pos_iff.2 hne
    simp only [List.length_append]
    omega
  generalize x ++ (f.marker ++ (u ++ (sp ++ rest))) = t at hs hspans hdrop hprefix hlt
  obtain ⟨-, -, hboundary⟩ := Span.ofMarker_eq_ok hs hlt
  have hstart := Span.start_le hs hlt
  have hpos : 0 ≤ s.start := Nat.zero_le _
  have hcut := (s.solids_cut (t := t) (u := t) hpos (by omega) (fun htwo _ => by omega)
    hboundary.le_length rfl).2
  rw [List.drop_zero, slice_zero, Span.solids_take_start hs hlt hprefix, hdrop] at hcut
  refine ⟨s.cut t, by rw [remove, hspans]; rfl, ?_⟩
  have hbehind : solids (Declaration.dropOne (.char '\n') rest) = solids rest := by
    cases rest with
    | nil => rfl
    | cons c r =>
      rw [Declaration.dropOne]
      split
      · next hc => rw [hc, solids_lineFeed]
      · rfl
  rw [hcut, hbehind, solids_append, solids_eq_nil_iff.2 (allBlank_of_isIndent hsp), List.nil_append]

end Graft
