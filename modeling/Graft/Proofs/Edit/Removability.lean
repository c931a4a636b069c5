import Graft.Proofs.Edit.Spans
import Graft.Proofs.Edit.Standing
import Graft.Proofs.Fragment.Filling
import Graft.Proofs.Text.Occurrences

/-!
# What can be taken out

Where the marker of a fragment occurs once, the fragment has one span or none, and it can be taken
out exactly if it has one (`remove_eq_ok_iff`). That nothing is missing from it does not say as much:
the texts that are missing from a fragment without a span are all that are required, and these may
be none.

> `exists_span_of_required`: a fragment that lacks nothing of what is required of it has a span, if
> anything is required.
> `spanFrom_of_nothing_required`: a fragment made of declaration lines has none otherwise.
-/

namespace Graft

variable {t : Text} {f : Fragment} {s : Span} {versions : VersionSet} {required : List Text}

/-! ## The one span -/

/-- Behind the first span of a fragment whose marker occurs once, the marker does not occur. -/
theorem searchFrom_stop (hfeed : .char '\n' ∉ f.marker) (hne : f.marker ≠ [])
    (honce : Text.count f.marker t = 1) (hs : spanFrom t f 0 = .ok (some s)) :
    Text.searchFrom f.marker t s.stop = none := by
  unfold spanFrom at hs
  split at hs
  · cases hs
  · next i hi =>
    obtain ⟨s', hs, heq⟩ := exists_of_map_eq_ok hs
    cases heq
    have hsearch : Text.search f.marker t = some i := by
      rw [Text.searchFrom, if_pos (Nat.zero_le _), List.drop_zero] at hi
      obtain ⟨j, hj, rfl⟩ := Option.map_eq_some_iff.1 hi
      exact hj
    have hfront := Text.prefix_of_search hsearch
    have hlt := Text.lt_length_of_prefix_drop hne hfront
    obtain ⟨-, hstop, -⟩ := Span.ofMarker_eq_ok hs hlt
    -- the marker lies on one line, and the span goes to the end of that line at least
    have hline := Text.add_length_le_lineEnd hfeed hfront
    have hnone : Text.search f.marker (t.drop (i + f.marker.length)) = none := by
      have hcount := Text.count_of_search hne hsearch
      rw [← Text.contains_eq_false_iff, ← Text.count_eq_zero_iff hne]
      omega
    rw [Text.searchFrom]
    split
    · obtain ⟨k, hk⟩ := Nat.exists_eq_add_of_le (Nat.le_trans hline hstop)
      have hpart : t.drop s.stop <:+: t.drop (i + f.marker.length) := by
        rw [hk, ← List.drop_drop]
        exact (List.drop_suffix _ _).isInfix
      rw [Text.search_eq_none_of_isInfix hnone hpart]
      rfl
    · rfl

/-- A fragment whose marker occurs once has its first span only. -/
theorem spans_of_once (hfeed : .char '\n' ∉ f.marker) (hne : f.marker ≠ [])
    (honce : Text.count f.marker t = 1) (hs : spanFrom t f 0 = .ok (some s)) :
    spans t f = .ok [s] := by
  have hstop : spanFrom t f s.stop = .ok none := by
    rw [spanFrom, searchFrom_stop hfeed hne honce hs]
  have hrest : ∀ fuel, spansFrom t f fuel s.stop = .ok [] := by
    intro fuel
    cases fuel with
    | zero => rfl
    | succ fuel => rw [spansFrom, hstop]
  rw [spans, spansFrom, hs]
  dsimp only
  rw [hrest]
  rfl

/-- **A fragment whose marker occurs once can be taken out** exactly if it has a span. -/
theorem remove_eq_ok_iff (hfeed : .char '\n' ∉ f.marker) (hne : f.marker ≠ [])
    (honce : Text.count f.marker t = 1) :
    (∃ u, remove t f = .ok u) ↔ ∃ s, spanFrom t f 0 = .ok (some s) := by
  constructor
  · rintro ⟨u, hu⟩
    obtain ⟨ss, hss, -⟩ := exists_of_map_eq_ok hu
    rw [spans, spansFrom] at hss
    split at hss
    · cases hss
    · next hnone =>
      -- there is a first occurrence, as the marker occurs
      have hcontains : ¬ t.contains f.marker = false := by
        rw [← Text.count_eq_zero_iff hne]
        omega
      rw [Text.contains_eq_false_iff] at hcontains
      obtain ⟨i, hi⟩ := Option.ne_none_iff_exists'.1 hcontains
      rw [spanFrom, Text.searchFrom, if_pos (Nat.zero_le _), List.drop_zero, hi] at hnone
      obtain ⟨s, -, heq⟩ := exists_of_map_eq_ok hnone
      cases heq
    · next s hs => exact ⟨s, hs⟩
  · rintro ⟨s, hs⟩
    refine ⟨s.cut t, ?_⟩
    rw [remove, spans_of_once hfeed hne honce hs]
    rfl

/-! ## What is required -/

/-- A fragment that lacks nothing has a span, if anything is required of it. -/
theorem exists_span_of_required (hmissing : missingTexts t f versions = .ok []) :
    ∃ required, f.requiredTexts versions = .ok required ∧
      (required ≠ [] → ∃ s, spanFrom t f 0 = .ok (some s)) := by
  unfold missingTexts at hmissing
  obtain ⟨required, hrequired, hmissing⟩ := exists_of_bind_eq_ok hmissing
  refine ⟨required, hrequired, fun hne => ?_⟩
  split at hmissing
  · next s hs => exact ⟨s, hs⟩
  · cases hmissing
    exact absurd rfl hne

namespace Text

theorem solids_trimLineFeeds (t : Text) : solids (trimLineFeeds t) = solids t := by
  have hfeed : ∀ c : CodePoint, (c == .char '\n') = true → isBlank c = true := by
    intro c hc
    rw [eq_of_beq hc]
    decide
  have hright : ∀ u : Text, solids (dropRight (· == .char '\n') u) = solids u := by
    intro u
    have h := solids_dropWhile hfeed u.reverse
    unfold solids at h ⊢
    rw [dropRight, List.filter_reverse, h, List.filter_reverse, List.reverse_reverse]
  rw [trimLineFeeds, hright, solids_dropWhile hfeed]

theorem dropRight_prefix (p : CodePoint → Bool) (t : Text) : dropRight p t <+: t := by
  have h := List.dropWhile_suffix p (l := t.reverse)
  rwa [← List.reverse_prefix, List.reverse_reverse] at h

theorem solids_trim (t : Text) : solids (trim t) = solids t := by
  rw [trim, solids_trimRight, trimLeft, solids_dropWhile fun _ h => h]

theorem mem_solids_iff {c : CodePoint} : c ∈ solids t ↔ c ∈ t ∧ isBlank c = false := by
  rw [solids, List.mem_filter, Bool.not_eq_true']

end Text

/-- The first declaration line of a template stands behind line feeds only. -/
theorem exists_template_eq (hpatterns : f.patterns ≠ []) : ∃ feeds line more,
    f.template = feeds ++ (line ++ more) ∧ (∀ c ∈ feeds, c = .char '\n') ∧
      Declaration.isDeclaration line = true := by
  have hfeeds := List.takeWhile_append_dropWhile (p := (· == .char '\n')) (l := f.template)
  obtain ⟨last, hlast⟩ :=
    Text.dropRight_prefix (· == .char '\n') (f.template.dropWhile (· == .char '\n'))
  unfold Fragment.patterns at hpatterns
  cases hlines : Text.lines (Text.trimLineFeeds f.template) with
  | nil =>
    rw [hlines] at hpatterns
    exact absurd rfl hpatterns
  | cons line below =>
    obtain ⟨more, hmore⟩ := (Text.prefix_of_lines hlines).1
    refine ⟨f.template.takeWhile (· == .char '\n'), line, more ++ last, ?_, ?_, ?_⟩
    · rw [← List.append_assoc line, hmore]
      exact (hlast ▸ hfeeds).symm
    · intro c hc
      exact eq_of_beq (List.all_eq_true.1 List.all_takeWhile c hc)
    · cases hdeclaration : Declaration.isDeclaration line with
      | true => rfl
      | false =>
        rw [hlines, List.takeWhile_cons_of_neg (by simp [hdeclaration])] at hpatterns
        exact absurd rfl hpatterns

/-- The keyword of the first declaration line of a template is taken over into the body. -/
theorem exists_mem_body {body : Text} (hpatterns : f.patterns ≠ [])
    (hbody : f.body versions = .ok body) : ∃ c ∈ body, Text.isIdentifierStart c = true := by
  obtain ⟨feeds, line, more, htemplate, hfeeds, hdeclaration⟩ := exists_template_eq hpatterns
  obtain ⟨c, rest, hkeyword, hc⟩ := Declaration.exists_dropIndent hdeclaration
  have hline := List.takeWhile_append_dropWhile (p := Text.isIndent) (l := line)
  have hindent : (line.takeWhile Text.isIndent).all Text.isIndent = true := List.all_takeWhile
  generalize line.takeWhile Text.isIndent = indent at hline hindent
  have hkeyword' : line.dropWhile Text.isIndent = c :: rest := hkeyword
  rw [hkeyword'] at hline
  -- what stands before the keyword, and the keyword itself, is taken over as it is
  have hliteral : .char '$' ∉ feeds ++ (indent ++ [c]) := by
    have hdollar : .char '$' ≠ c := by
      rintro rfl
      cases hc
    simp only [List.mem_append, List.mem_singleton, not_or]
    exact ⟨fun h => absurd (hfeeds _ h) (by decide),
      Text.not_mem_of_isIndent (by decide) hindent, hdollar⟩
  have hsplit : f.template = feeds ++ (indent ++ [c]) ++ (rest ++ more) := by
    rw [htemplate, ← hline]
    simp
  obtain ⟨filled, hfilled, rfl⟩ := exists_of_map_eq_ok hbody
  unfold Fragment.fill at hfilled
  split at hfilled
  · next t ht =>
    cases hfilled
    rw [Template.fill, hsplit, Template.fillSkipping_literal hliteral] at ht
    obtain ⟨tail, -, rfl⟩ := exists_of_map_eq_ok ht
    have hmem : c ∈ Text.solids (Text.trimLineFeeds (feeds ++ (indent ++ [c]) ++ tail)) := by
      rw [Text.solids_trimLineFeeds, Text.mem_solids_iff]
      exact ⟨by simp, Text.isBlank_of_isIdentifierStart hc⟩
    exact ⟨c, (Text.mem_solids_iff.1 hmem).1, hc⟩
  · cases hfilled
  · cases hfilled

/-- Something is required of a fragment whose template has declaration lines. -/
theorem requiredTexts_ne_nil (hpatterns : f.patterns ≠ [])
    (hrequired : f.requiredTexts versions = .ok required) : required ≠ [] := by
  unfold Fragment.requiredTexts at hrequired
  split at hrequired
  · obtain ⟨body, hbody, rfl⟩ := exists_of_map_eq_ok hrequired
    obtain ⟨c, hmem, hc⟩ := exists_mem_body hpatterns hbody
    have hblank := Text.isBlank_of_isIdentifierStart hc
    -- the line that has the keyword is neither blank nor a lone brace
    have hsolid : c ∈ Text.solids (Text.lines body).flatten := by
      rw [Text.solids_flatten_lines]
      exact Text.mem_solids_iff.2 ⟨hmem, hblank⟩
    obtain ⟨line, hline, hmemLine⟩ := List.mem_flatten.1 (Text.mem_solids_iff.1 hsolid).1
    have htrim : c ∈ Text.trim line := by
      have := Text.mem_solids_iff.2 ⟨hmemLine, hblank⟩
      rw [← Text.solids_trim] at this
      exact (Text.mem_solids_iff.1 this).1
    have hsilent : Fragment.saysNothing line = false := by
      cases h : Fragment.saysNothing line with
      | false => rfl
      | true =>
        simp only [Fragment.saysNothing, Bool.or_eq_true, beq_iff_eq] at h
        rcases h with (h | h) | h
        · rw [h] at htrim
          cases htrim
        · rw [h, List.mem_singleton] at htrim
          rw [htrim] at hc
          cases hc
        · rw [h, List.mem_singleton] at htrim
          rw [htrim] at hc
          cases hc
    intro hnil
    have hkept : Text.trim line ∈
        ((Text.lines body).filter (!Fragment.saysNothing ·)).map Text.trim :=
      List.mem_map_of_mem (List.mem_filter.2 ⟨hline, by rw [hsilent]; rfl⟩)
    rw [hnil] at hkept
    cases hkept
  · next hnone =>
    rintro rfl
    cases hlist : f.required with
    | nil =>
      rw [hlist] at hnone
      exact hnone rfl
    | cons text rest =>
      rw [hlist] at hrequired
      obtain ⟨_, _, -, -, heq⟩ := exists_of_mapM_cons_eq_ok hrequired
      cases heq

/-- A fragment is made of declaration lines only: it introduces no block. -/
def Fragment.IsFlat (f : Fragment) : Prop :=
  f.block = none ∨ f.block = some []

/-- A fragment made of declaration lines has no span where its marker occurs, if nothing is required
of it. -/
theorem spanFrom_of_nothing_required (hflat : f.IsFlat) (hnothing : f.requiredTexts versions = .ok [])
    (s : Span) : spanFrom t f 0 ≠ .ok (some s) := by
  have hpatterns : f.patterns = [] := by
    by_cases h : f.patterns = []
    · exact h
    · exact absurd rfl (requiredTexts_ne_nil h hnothing)
  have htaken : ∀ stop lines, (Span.takeDeclarations [] stop lines) = (stop, 0) := by
    intro stop lines
    cases lines with
    | nil => rfl
    | cons line below => rfl
  intro hs
  unfold spanFrom at hs
  split at hs
  · cases hs
  · next i hi =>
    obtain ⟨s', hs, -⟩ := exists_of_map_eq_ok hs
    unfold Span.ofMarker at hs
    dsimp only at hs
    rw [hpatterns, htaken] at hs
    rcases hflat with hblock | hblock
    · rw [hblock] at hs
      cases hs
    · rw [hblock] at hs
      cases hs

end Graft
