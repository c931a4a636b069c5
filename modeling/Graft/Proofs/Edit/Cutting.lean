import Graft.Proofs.Edit.Preservation
import Graft.Proofs.Edit.Scanning

/-!
# What is left behind cuts

Where spans are cut out, what is left of the text are the pieces between them, one behind the other.
A piece may lack the line feed at its end, if there was another one before it, or the line feed at its
start, if the span before it started a line (`Apart.drop_cutAll`).

> `remove_complete`: the scan for spans finds an end, its spans are apart and around their markers, and
> where nothing but blanks precedes the markers on their lines, the marker is gone once the spans are
> cut out, so that there is nothing left to take out.
-/

namespace Graft

open Text

variable {t : Text} {f : Fragment} {pos : Nat} {s : Span} {ss : List Span}
  {found : List (Nat × Span)}

/-! ## All cuts -/

/-- The text without some spans that are apart, the last one taken out first. -/
def cutAll (ss : List Span) (t : Text) : Text :=
  ss.foldr (fun s u => s.cut u) t

theorem remove_eq (t : Text) (f : Fragment) : remove t f = (cutAll · t) <$> spans t f := by
  unfold remove
  simp only [List.foldl_reverse]
  rfl

/-- What is left from a place on is what precedes the first span and what is left behind it, but
perhaps for a line feed between the two. -/
theorem Apart.drop_cutAll (h : Apart t pos (s :: ss)) :
    (cutAll (s :: ss) t).drop pos = slice t pos s.start ++ (cutAll ss t).drop s.stop ∨
    (∃ x, slice t pos s.start = x ++ [.char '\n'] ∧ (x = [] ∨ x.getLast? = some (.char '\n')) ∧
      ((cutAll ss t).drop s.stop = [] ∨ ((cutAll ss t).drop s.stop).head? = some (.char '\n')) ∧
      (cutAll (s :: ss) t).drop pos = x ++ (cutAll ss t).drop s.stop) ∨
    (∃ y, (cutAll ss t).drop s.stop = .char '\n' :: y ∧ StartsLine t s.start ∧
      (cutAll (s :: ss) t).drop pos = slice t pos s.start ++ y) := by
  cases h with
  | cons hstart hstop hblank hrest =>
    exact (s.drop_cut hstart hstop hblank hrest.le_length hrest.solids_cuts.1).2

theorem Scan.apart (hne : f.marker ≠ []) (hfeed : .char '\n' ∉ f.marker) (hpos : Boundary t pos)
    (h : Scan t f pos found none) : Apart t pos (found.map (·.2)) := by
  have hfuel : t.length < t.length + 1 + pos := by omega
  obtain ⟨_, _, hscan, hok, -⟩ := exists_scan_spansFrom hne hfeed hfuel
  obtain ⟨rfl, rfl⟩ := h.unique hscan
  exact apart_of_spansFrom hne hpos (hok rfl)

/-- Where nothing but blanks precedes the markers on their lines, no marker is left. -/
theorem Scan.search_cutAll (hne : f.marker ≠ []) (hfeed : .char '\n' ∉ f.marker)
    (hpos : Boundary t pos) (hblank : ∀ p ∈ found, allBlank (slice t (lineStart t p.1) p.1) = true)
    (h : Scan t f pos found none) :
    search f.marker ((cutAll (found.map (·.2)) t).drop pos) = none := by
  generalize hr : (none : Option Unbounded) = r at h
  induction h with
  | failed => cases hr
  | @done pos h =>
    rw [searchFrom, if_pos hpos.le_length] at h
    exact Option.map_eq_none_iff.1 h
  | @step pos i s found r hi hs hrest ih =>
    obtain ⟨hmargin, hblank⟩ := List.forall_mem_cons.1 hblank
    obtain ⟨hle, hstart, hstop, hboundary⟩ := Span.around_marker hne hfeed hi hs
    have hlt := lt_length_of_prefix_drop hne (prefix_of_searchFrom hi).2
    have hbehind := ih hboundary hblank hr
    -- the piece before the span is made of lines, and the marker is not in it
    have hline : StartsLine t s.start := by
      rw [(Span.ofMarker_eq_ok hs hlt).1, if_pos hmargin]
      exact startsLine_lineStart t i
    have hpiece : search f.marker (slice t pos s.start) = none := by
      rw [searchFrom, if_pos hpos.le_length] at hi
      obtain ⟨j, hj, rfl⟩ := Option.map_eq_some_iff.1 hi
      refine search_eq_none_of_isInfix (search_take hne hj) ?_
      rw [slice, List.drop_take]
      exact (List.take_prefix_take_left (by omega)).isInfix
    have hends := hline.slice_eq pos
    rw [List.map_cons]
    subst hr
    rcases ((Scan.step hi hs hrest).apart hne hfeed hpos).drop_cutAll with
      heq | ⟨x, hx, hends', -, heq⟩ | ⟨y, hy, -, heq⟩
    · rw [heq]
      exact search_append_lines hfeed hends hpiece hbehind
    · rw [heq]
      have hx' : x <:+: slice t pos s.start := hx ▸ (List.prefix_append _ _).isInfix
      exact search_append_lines hfeed hends' (search_eq_none_of_isInfix hpiece hx') hbehind
    · rw [heq]
      rw [hy] at hbehind
      have hy' : y <:+: .char '\n' :: y := (List.suffix_cons _ _).isInfix
      exact search_append_lines hfeed hends hpiece (search_eq_none_of_isInfix hbehind hy')

/-- **Removal is complete.** The scan for spans comes to an end. If an occurrence of the marker has no
span, nothing is removed. Otherwise the spans are in the text, in order and apart, each around its
marker; and if nothing but blanks precedes the markers on their lines, the marker is gone from what is
left, and there is nothing to remove from that. -/
theorem remove_complete (hne : f.marker ≠ []) (hfeed : .char '\n' ∉ f.marker) :
    (∀ pos s, spanFrom t f pos = .ok (some s) → pos < s.stop) ∧
    ∃ found r, Scan t f 0 found r ∧ (∀ found' r', Scan t f 0 found' r' → found' = found ∧ r' = r) ∧
      (∀ p ∈ found, p.2.start ≤ p.1 ∧ p.1 + f.marker.length ≤ p.2.stop ∧ p.2.start < p.2.stop ∧
        p.2.stop ≤ t.length) ∧
      found.Pairwise (fun p q => p.2.stop ≤ q.2.start) ∧
      (∀ e, r = some e → spans t f = .error e ∧ remove t f = .error e) ∧
      (r = none → spans t f = .ok (found.map (·.2)) ∧ ∃ u, remove t f = .ok u ∧
        ((∀ p ∈ found, allBlank (slice t (lineStart t p.1) p.1) = true) →
          u.contains f.marker = false ∧ remove u f = .ok u)) := by
  refine ⟨fun _ _ => lt_stop_of_spanFrom hne hfeed, ?_⟩
  obtain ⟨found, r, hscan, hok, herror⟩ := exists_scan (t := t) hne hfeed
  refine ⟨found, r, hscan, fun _ _ h => hscan.unique h, fun p hp => ?_,
    hscan.pairwise hne hfeed, fun e he => ⟨herror e he, ?_⟩, fun hr => ⟨hok hr, ?_⟩⟩
  · obtain ⟨-, hstart, hstop, hlength⟩ := hscan.located hne hfeed .start p hp
    have := List.length_pos_iff.2 hne
    exact ⟨hstart, hstop, by omega, hlength⟩
  · rw [remove_eq, herror e he]
    rfl
  · refine ⟨cutAll (found.map (·.2)) t, by rw [remove_eq, hok hr]; rfl, fun hblank => ?_⟩
    subst hr
    have hnone := hscan.search_cutAll hne hfeed .start hblank
    rw [List.drop_zero] at hnone
    refine ⟨contains_eq_false_iff.2 hnone, ?_⟩
    -- without a marker there is no span
    have hspans : spans (cutAll (found.map (·.2)) t) f = .ok [] := by
      rw [spans, spansFrom, spanFrom, searchFrom, if_pos (Nat.zero_le _), List.drop_zero, hnone]
      rfl
    rw [remove_eq, hspans]
    rfl

/-- A text that has a fragment three times, twice without anything between. -/
def repeatedText : Text :=
  "x \x7b\n    // b\n    z 'w'\n\n    y\n\x7d\n\n// b\nz 'w'\n// b\nz 'w'".toText

/-- All three are found and taken out. -/
theorem remove_complete_repeatedText : Plan.carried.marker ≠ [] ∧ .char '\n' ∉ Plan.carried.marker ∧
    Scan repeatedText Plan.carried 0 [(8, ⟨4, 23, 1⟩), (33, ⟨33, 44, 1⟩), (44, ⟨44, 54, 1⟩)] none ∧
    ∃ u, remove repeatedText Plan.carried = .ok u ∧ u.contains Plan.carried.marker = false ∧
      remove u Plan.carried = .ok u := by
  have hne : Plan.carried.marker ≠ [] := by decide
  have hfeed : .char '\n' ∉ Plan.carried.marker := by decide
  have hscan : Scan repeatedText Plan.carried 0
      [(8, ⟨4, 23, 1⟩), (33, ⟨33, 44, 1⟩), (44, ⟨44, 54, 1⟩)] none := by
    unfold repeatedText Plan.carried
    repeat rw [String.toText_ofList]
    exact .step (by decide) (eq_ok_of_toOption (by decide)) <|
      .step (by decide) (eq_ok_of_toOption (by decide)) <|
        .step (by decide) (eq_ok_of_toOption (by decide)) (.done (by decide))
  obtain ⟨-, found, r, -, hunique, -, -, -, hremove⟩ :=
    remove_complete (t := repeatedText) (f := Plan.carried) hne hfeed
  obtain ⟨rfl, rfl⟩ := hunique _ _ hscan
  obtain ⟨-, u, hu, hgone⟩ := hremove rfl
  refine ⟨hne, hfeed, hscan, u, hu, hgone ?_⟩
  unfold repeatedText
  repeat rw [String.toText_ofList]
  decide

end Graft
