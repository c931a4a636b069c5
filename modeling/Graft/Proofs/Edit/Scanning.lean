import Graft.Proofs.Edit.Spans
import Graft.Proofs.Text.Occurrences

/-!
# Scanning for spans

The spans of a fragment are looked for one after the other, each from the end of the one before, until
there is no further occurrence of the marker or one has no span. `Scan` tells this without a bound on
the number of steps and keeps the place of every marker that is found.

> `exists_scan`: the scan comes to an end, and its spans are those that the bounded search gives.
> `Scan.unique`: there is no other scan.
> `Scan.located`, `Scan.pairwise`: the spans are in order and apart, each around its marker.
-/

namespace Graft

open Text

/-- What is found from index `pos` on: the places of the markers with their spans, and why the scan
stopped if it did not reach the end. -/
inductive Scan (t : Text) (f : Fragment) : Nat → List (Nat × Span) → Option Unbounded → Prop
  | done {pos : Nat} (h : searchFrom f.marker t pos = none) : Scan t f pos [] none
  | failed {pos i : Nat} {e : Unbounded} (h : searchFrom f.marker t pos = some i)
      (hs : Span.ofMarker t f i = .error e) : Scan t f pos [] (some e)
  | step {pos i : Nat} {s : Span} {found : List (Nat × Span)} {r : Option Unbounded}
      (h : searchFrom f.marker t pos = some i) (hs : Span.ofMarker t f i = .ok s)
      (hrest : Scan t f s.stop found r) : Scan t f pos ((i, s) :: found) r

variable {t : Text} {f : Fragment} {pos i fuel : Nat} {s : Span} {ss : List Span} {e : Unbounded}
  {found found' : List (Nat × Span)} {r r' : Option Unbounded}

theorem Scan.unique (h : Scan t f pos found r) (h' : Scan t f pos found' r') :
    found' = found ∧ r' = r := by
  induction h generalizing found' r' with
  | done h =>
    cases h' with
    | done => exact ⟨rfl, rfl⟩
    | failed h' => cases h.symm.trans h'
    | step h' => cases h.symm.trans h'
  | failed h hs =>
    cases h' with
    | done h' => cases h.symm.trans h'
    | failed h' hs' =>
      cases h.symm.trans h'
      cases hs.symm.trans hs'
      exact ⟨rfl, rfl⟩
    | step h' hs' =>
      cases h.symm.trans h'
      cases hs.symm.trans hs'
  | step h hs _ ih =>
    cases h' with
    | done h' => cases h.symm.trans h'
    | failed h' hs' =>
      cases h.symm.trans h'
      cases hs.symm.trans hs'
    | step h' hs' hrest' =>
      cases h.symm.trans h'
      cases hs.symm.trans hs'
      obtain ⟨rfl, rfl⟩ := ih hrest'
      exact ⟨rfl, rfl⟩

/-! ## One step -/

section Step

variable (hne : f.marker ≠ []) (hfeed : .char '\n' ∉ f.marker)
include hne hfeed

/-- A span goes from its marker, or before it, to behind the marker. -/
theorem Span.around_marker (hi : searchFrom f.marker t pos = some i) (hs : ofMarker t f i = .ok s) :
    pos ≤ i ∧ s.start ≤ i ∧ i + f.marker.length ≤ s.stop ∧ Boundary t s.stop := by
  obtain ⟨hle, hfront⟩ := prefix_of_searchFrom hi
  obtain ⟨hstart, hstop, hboundary⟩ := ofMarker_eq_ok hs (lt_length_of_prefix_drop hne hfront)
  have hline := add_length_le_lineEnd hfeed hfront
  have hbefore := lineStart_le t i
  refine ⟨hle, ?_, by omega, hboundary⟩
  rw [hstart]
  split <;> omega

/-- **Every step gets on.** A span ends behind the place from which it is looked for. -/
theorem lt_stop_of_spanFrom (h : spanFrom t f pos = .ok (some s)) : pos < s.stop := by
  unfold spanFrom at h
  split at h
  · cases h
  · next i hi =>
    obtain ⟨_, hs, heq⟩ := exists_of_map_eq_ok h
    cases heq
    obtain ⟨hle, -, hstop, -⟩ := Span.around_marker hne hfeed hi hs
    have := List.length_pos_iff.2 hne
    omega

/-- **The scan comes to an end**, and the search with enough fuel gives the same. -/
theorem exists_scan_spansFrom (hfuel : t.length < fuel + pos) : ∃ found r,
    Scan t f pos found r ∧
      (r = none → spansFrom t f fuel pos = .ok (found.map (·.2))) ∧
      ∀ e, r = some e → spansFrom t f fuel pos = .error e := by
  induction fuel generalizing pos with
  | zero =>
    have hnone : searchFrom f.marker t pos = none := by
      rw [searchFrom, if_neg (by omega)]
    exact ⟨[], none, .done hnone, fun _ => rfl, fun e he => by cases he⟩
  | succ fuel ih =>
    rw [spansFrom]
    cases hi : searchFrom f.marker t pos with
    | none =>
      refine ⟨[], none, .done hi, fun _ => ?_, fun e he => by cases he⟩
      rw [spanFrom, hi]
      rfl
    | some i =>
      cases hs : Span.ofMarker t f i with
      | error e =>
        refine ⟨[], some e, .failed hi hs, fun hr => (by cases hr), fun e' he => ?_⟩
        cases he
        rw [spanFrom, hi]
        dsimp only
        rw [hs]
        rfl
      | ok s =>
        have hspan : spanFrom t f pos = .ok (some s) := by
          rw [spanFrom, hi]
          dsimp only
          rw [hs]
          rfl
        have hlt := lt_stop_of_spanFrom hne hfeed hspan
        obtain ⟨found, r, hscan, hok, herror⟩ := @ih s.stop (by omega)
        refine ⟨(i, s) :: found, r, .step hi hs hscan, fun hr => ?_, fun e he => ?_⟩
        · rw [hspan]
          dsimp only
          rw [hok hr]
          rfl
        · rw [hspan]
          dsimp only
          rw [herror e he]
          rfl

theorem exists_scan : ∃ found r, Scan t f 0 found r ∧
    (r = none → spans t f = .ok (found.map (·.2))) ∧ ∀ e, r = some e → spans t f = .error e :=
  exists_scan_spansFrom hne hfeed (Nat.lt_succ_self t.length)

theorem exists_scan_of_spans (h : spans t f = .ok ss) :
    ∃ found, Scan t f 0 found none ∧ ss = found.map (·.2) := by
  obtain ⟨found, r, hscan, hok, herror⟩ := exists_scan (t := t) hne hfeed
  cases r with
  | none => exact ⟨found, hscan, Except.ok.inj (h.symm.trans (hok rfl))⟩
  | some e => cases h.symm.trans (herror e rfl)

/-! ## All steps -/

/-- Each span is around its marker, in the text, and behind the place where the scan started. -/
theorem Scan.located (hpos : Boundary t pos) (h : Scan t f pos found r) :
    ∀ p ∈ found, pos ≤ p.2.start ∧ p.2.start ≤ p.1 ∧ p.1 + f.marker.length ≤ p.2.stop ∧
      p.2.stop ≤ t.length := by
  induction h with
  | done => simp
  | failed => simp
  | @step pos i s found r hi hs _ ih =>
    obtain ⟨hle, hstart, hstop, hboundary⟩ := Span.around_marker hne hfeed hi hs
    have hlt := lt_length_of_prefix_drop hne (prefix_of_searchFrom hi).2
    have hposStart := hpos.le_start hs hlt hle
    refine List.forall_mem_cons.2 ⟨⟨hposStart, hstart, hstop, hboundary.le_length⟩, fun p hp => ?_⟩
    obtain ⟨hbefore, hrest⟩ := ih hboundary p hp
    exact ⟨by omega, hrest⟩

/-- No span begins before another one has ended. -/
theorem Scan.pairwise (h : Scan t f pos found r) :
    found.Pairwise fun p q => p.2.stop ≤ q.2.start := by
  induction h with
  | done => exact .nil
  | failed => exact .nil
  | step hi hs hrest ih =>
    obtain ⟨-, -, -, hboundary⟩ := Span.around_marker hne hfeed hi hs
    exact .cons (fun p hp => (hrest.located hne hfeed hboundary p hp).1) ih

end Step

end Graft
