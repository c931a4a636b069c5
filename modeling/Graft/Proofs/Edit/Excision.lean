import Graft.Proofs.Edit.Contents
import Graft.Proofs.Edit.Cutting
import Graft.Proofs.Fragment.Quoting

/-!
# What removal does to braces

Whether a brace is structural depends on all that precedes it. So a span can be cut out without harm
to what follows only if it is read from code to code; and the text stays balanced only if the braces
in the span pair up among themselves (`Span.Closed`). The spans of a fragment are of this kind where
the marker is a comment of its own line: the declaration lines are idle, and the block that is found
from its brace on is the one that the scan of the whole text finds.

> `Apart.kinds_cutAll`: where closed spans are cut out, the braces that are left are those that no
> span covers.
> `Span.closed_of_ofMarker`: the spans of a fragment are closed.
> `remove_braces`: removal keeps a text balanced, and takes the braces of the blocks that it
> removes.
-/

namespace Graft

open Text Reading

variable {t u : Text} {f : Fragment} {s : Span} {ss : List Span} {pos i j : Nat} {r : Reading}

/-! ## Closed spans -/

/-- A span is read from code to code, or up to the end of the text, and the braces in it pair up. -/
structure Span.Closed (s : Span) (t : Text) : Prop where
  start : code.run (t.take s.start) = code
  stop : code.run (s.text t) = code ∨ t.drop s.stop = []
  level : level 0 (code.kinds (s.text t)) = some 0

namespace Apart

/-- What is left from a place on has the braces that precede the first span and those of what is
left behind it. A line feed that is gone makes no difference. -/
theorem kinds_drop_cutAll (h : Apart t pos (s :: ss))
    (hcode : code.run (slice t pos s.start) = code) :
    code.kinds ((cutAll (s :: ss) t).drop pos) =
      code.kinds (slice t pos s.start) ++ code.kinds ((cutAll ss t).drop s.stop) := by
  rcases h.drop_cutAll with heq | ⟨x, hx, -, hrest, heq⟩ | ⟨y, hy, -, heq⟩
  · rw [heq, kinds_append, hcode]
  · rw [hx, run_append] at hcode
    have hstep : (code.run x).step (.char '\n') = code := hcode
    rw [heq, hx, kinds_append, kinds_append, kinds_lineFeed]
    rcases hrest with hnil | hfeed
    · rw [hnil, kinds_nil, kinds_nil, kinds_nil, List.append_nil, List.append_nil]
    · obtain ⟨y, hy⟩ := List.head?_eq_some_iff.1 hfeed
      rw [hy, kinds_lineFeed, kinds_lineFeed, hstep, List.append_assoc]
      rfl
  · rw [heq, hy, kinds_append, hcode, kinds_lineFeed]
    rfl

/-- The braces from a place on are those before the first span, those in it, and those behind it. -/
theorem met_drop (h : Apart t pos (s :: ss)) (hs : s.Closed t)
    (hcode : code.run (slice t pos s.start) = code) :
    code.met pos (t.drop pos) = code.met pos (slice t pos s.start) ++
      (code.met s.start (s.text t) ++ code.met s.stop (t.drop s.stop)) := by
  obtain ⟨hstart, hstop, hle, -⟩ := h.of_cons
  have hbefore : pos + (slice t pos s.start).length = s.start := by
    rw [length_slice (by omega)]
    omega
  have hspan : s.start + (s.text t).length = s.stop := by
    rw [Span.text, length_slice hle]
    omega
  have hbehind : (code.run (s.text t)).met s.stop (t.drop s.stop) =
      code.met s.stop (t.drop s.stop) := by
    rcases hs.stop with hcode' | hnil
    · rw [hcode']
    · rw [hnil]
      rfl
  rw [slice_append_text hstart hstop t, met_append, met_append, hcode, hbefore, hspan, hbehind]

/-- What comes before the first span is covered by none. -/
theorem any_covers_of_lt (h : Apart t pos (s :: ss)) (hi : i < s.start) :
    (s :: ss).any (·.covers i) = false := by
  obtain ⟨-, hstop, -, hrest⟩ := h.of_cons
  rw [List.any_eq_false]
  intro s' hs' hcovers
  obtain ⟨hle, -⟩ := Span.covers_iff.1 hcovers
  rcases List.mem_cons.1 hs' with rfl | hs'
  · omega
  · have := hrest.le_start s' hs'
    omega

/-- The braces that no span covers are those before the first span, and those behind it that none of
the others covers. -/
theorem filter_met (h : Apart t pos (s :: ss)) (hs : s.Closed t)
    (hcode : code.run (slice t pos s.start) = code) :
    (code.met pos (t.drop pos)).filter (fun e => !(s :: ss).any (·.covers e.index)) =
      code.met pos (slice t pos s.start) ++
        (code.met s.stop (t.drop s.stop)).filter (fun e => !ss.any (·.covers e.index)) := by
  obtain ⟨hstart, hstop, hle, -⟩ := h.of_cons
  have hbefore : ∀ e ∈ code.met pos (slice t pos s.start),
      (!(s :: ss).any (·.covers e.index)) = true := by
    intro e he
    have hlt := (bounds_of_mem_met he).2
    rw [length_slice (by omega)] at hlt
    rw [h.any_covers_of_lt (by omega)]
    rfl
  have hspan : ∀ e ∈ code.met s.start (s.text t),
      ¬(!(s :: ss).any (·.covers e.index)) = true := by
    intro e he
    obtain ⟨hge, hlt⟩ := bounds_of_mem_met he
    rw [Span.text, length_slice hle] at hlt
    have hcovers : s.covers e.index = true := Span.covers_iff.2 ⟨hge, by omega⟩
    simp [hcovers]
  have hbehind : ∀ e ∈ code.met s.stop (t.drop s.stop),
      (!(s :: ss).any (·.covers e.index)) = !ss.any (·.covers e.index) := by
    intro e he
    have hnot : s.covers e.index = false := by
      refine Bool.eq_false_iff.2 fun hcovers => ?_
      exact Nat.not_lt.2 (bounds_of_mem_met he).1 (Span.covers_iff.1 hcovers).2
    rw [List.any_cons, hnot, Bool.false_or]
  rw [h.met_drop hs hcode, List.filter_append, List.filter_append, List.filter_eq_self.2 hbefore,
    List.filter_eq_nil_iff.2 hspan, List.filter_congr hbehind]
  rfl

/-- From a place in code to a closed span, the text is read as if it began there. -/
theorem run_slice_start (h : Apart t pos (s :: ss)) (hs : s.Closed t)
    (hpos : code.run (t.take pos) = code ∨ t.drop pos = []) :
    code.run (slice t pos s.start) = code := by
  obtain ⟨hle, -⟩ := h.of_cons
  rcases hpos with hcode | hnil
  · have hstart := hs.start
    rwa [← take_append_slice hle, run_append, hcode] at hstart
  · have hsplit := slice_append_drop hle t
    rw [hnil] at hsplit
    rw [(List.append_eq_nil_iff.1 hsplit).1]
    rfl

/-- Behind a closed span the text is in code, or at its end. -/
theorem run_take_stop (h : Apart t pos (s :: ss)) (hs : s.Closed t) :
    code.run (t.take s.stop) = code ∨ t.drop s.stop = [] := by
  obtain ⟨-, hle, -⟩ := h.of_cons
  refine hs.stop.imp_left fun hstop => ?_
  rw [← take_append_slice hle, run_append, hs.start]
  exact hstop

/-- **Where closed spans are cut out**, the braces that are left are those that no span covers, and
they lead to the same level as all of them. -/
theorem kinds_cutAll (h : Apart t pos ss) (hclosed : ∀ s ∈ ss, s.Closed t)
    (hpos : code.run (t.take pos) = code ∨ t.drop pos = []) :
    code.kinds ((cutAll ss t).drop pos) =
      ((code.met pos (t.drop pos)).filter fun e => !ss.any (·.covers e.index)).map (·.brace) ∧
    ∀ n, level n (code.kinds ((cutAll ss t).drop pos)) = level n (code.kinds (t.drop pos)) := by
  induction ss generalizing pos with
  | nil =>
    have hall : (code.met pos (t.drop pos)).filter
        (fun e => !([] : List Span).any (·.covers e.index)) = code.met pos (t.drop pos) :=
      List.filter_eq_self.2 fun _ _ => rfl
    refine ⟨?_, fun n => rfl⟩
    rw [hall, map_brace_met]
    rfl
  | cons s ss ih =>
    obtain ⟨hs, hss⟩ := List.forall_mem_cons.1 hclosed
    obtain ⟨-, -, -, hrest⟩ := h.of_cons
    obtain ⟨hkinds, hlevel⟩ := ih hrest hss (h.run_take_stop hs)
    have hcode := h.run_slice_start hs hpos
    rw [h.kinds_drop_cutAll hcode]
    refine ⟨?_, fun n => ?_⟩
    · rw [h.filter_met hs hcode, List.map_append, map_brace_met, hkinds]
    · have hsplit := congrArg (List.map (·.brace)) (h.met_drop hs hcode)
      rw [List.map_append, List.map_append, map_brace_met, map_brace_met, map_brace_met,
        map_brace_met] at hsplit
      rw [hsplit, level_skip hs.level, level_append, level_append]
      exact Option.bind_congr fun m _ => hlevel m

end Apart

/-! ## The parts of a span -/

/-- Where a marker is in code behind nothing but a margin, its line begins in code. -/
theorem run_lineStart (hmargin : allBlank (slice t (lineStart t i) i) = true)
    (hcode : inCodeAt t i = true) : code.run (t.take (lineStart t i)) = code := by
  obtain ⟨above, line, htake, hstart, hline, habove⟩ := exists_lineStart t i
  have hslice : slice t (lineStart t i) i = line := by
    rw [slice, htake, hstart, List.drop_left]
  have hfront : t.take (lineStart t i) = above := by
    rw [← Nat.min_eq_left (lineStart_le t i), ← List.take_take, htake, hstart, List.take_left]
  rw [hslice] at hmargin
  rw [inCodeAt, htake, run_append, inCode_run_plain (all_isPlain_of_allBlank hmargin hline)]
    at hcode
  rw [hfront]
  rcases habove with rfl | hlast
  · rfl
  · obtain ⟨front, rfl⟩ := List.getLast?_eq_some_iff.1 hlast
    rw [run_append] at hcode ⊢
    exact step_lineFeed hcode

theorem not_isFlat {c : CodePoint} {name : Text} (hblock : f.block = some (c :: name)) :
    ¬ f.IsFlat := by
  rintro (hnone | hnil)
  · rw [hblock] at hnone
    cases hnone
  · rw [hblock] at hnil
    cases hnil

theorem reading_comment {w : Text} (hw : .char '\n' ∉ w) :
    code.run (.char '/' :: .char '/' :: w) = lineComment ∧
    ∀ i, code.met i (.char '/' :: .char '/' :: w) = [] := by
  refine ⟨run_lineComment hw, fun i => ?_⟩
  rw [met_cons_of_ne (by decide) (by decide), met_cons_of_ne (by decide) (by decide)]
  exact met_lineComment hw _

/-! ## Spans with a block -/

/-- The structural braces in a span are those of one block: the brace behind a header that starts a
line, its partner, and all between the two. -/
structure Span.HoldsBlock (s : Span) (t name : Text) (i j : Nat) : Prop where
  header : ∃ above head, t.take i = above ++ .char '\n' :: head ∧ IsHeader name head
  partners : Partners t i j
  covers_iff : ∀ e ∈ braces t, s.covers e.index = true ↔ i ≤ e.index ∧ e.index ≤ j

/-- A span is a front that ends in the header of a block, the block from its brace to the partner,
and perhaps a line feed. No structural brace is in the front. -/
structure Span.Led (s : Span) (t name front feed : Text) (brace close : Nat) : Prop where
  text_eq : s.text t = front ++ (slice t brace (close + 1) ++ feed)
  feed_eq : feed = [] ∨ feed = [.char '\n']
  run : code.run front = code
  met : ∀ j, code.met j front = []
  header : ∃ above head, front = above ++ .char '\n' :: head ∧ IsHeader name head
  brace_eq : brace = s.start + front.length
  partner : closeOf t brace = .ok close

theorem met_feed {feed : Text} (h : feed = [] ∨ feed = [.char '\n']) (r : Reading) (j : Nat) :
    r.met j feed = [] := by
  rcases h with rfl | rfl
  · rfl
  · exact met_eq_nil (by decide) (by decide) r j

namespace Span.Led

variable {name front feed : Text} {brace close : Nat}
  (h : s.Led t name front feed brace close)
include h

theorem bounds : t[brace]? = some (.char '{') ∧ brace < close ∧ close < t.length := by
  obtain ⟨-, hlt, hopening, hclosing⟩ := getElem?_of_closeOf h.partner
  rw [Int.toNat_natCast] at hlt hopening
  exact ⟨hopening, hlt, (List.getElem?_eq_some_iff.1 hclosing).1⟩

/-- All that is met in the span is met in the block. -/
theorem met_text : code.met s.start (s.text t) = code.met brace (slice t brace (close + 1)) := by
  rw [h.text_eq, met_append, h.met, h.run, ← h.brace_eq, met_append, met_feed h.feed_eq,
    List.append_nil]
  rfl

/-- **Such a span is closed** where it begins in code. -/
theorem closed (hstart : code.run (t.take s.start) = code) : s.Closed t := by
  obtain ⟨hcode, hlevel⟩ := reads_block h.partner
  refine ⟨hstart, .inl ?_, ?_⟩
  · rw [h.text_eq, run_append, h.run, run_append, hcode]
    rcases h.feed_eq with hfeed | hfeed <;> rw [hfeed] <;> rfl
  · rw [← map_brace_met code s.start, h.met_text, map_brace_met]
    exact hlevel

variable (hle : s.start ≤ s.stop)
include hle

theorem take_brace : t.take brace = t.take s.start ++ front := by
  have hslice : slice t s.start brace = front := by
    have hdrop : t.drop s.start = s.text t ++ t.drop s.stop := (slice_append_drop hle t).symm
    rw [slice, List.drop_take, hdrop, h.text_eq, h.brace_eq, Nat.add_sub_cancel_left,
      List.append_assoc, List.take_left]
  rw [← hslice, take_append_slice (h.brace_eq ▸ Nat.le_add_right _ _)]

/-- **The structural braces in such a span** are those of the block. -/
theorem holdsBlock (hlength : s.stop ≤ t.length) (hstart : code.run (t.take s.start) = code) :
    s.HoldsBlock t name brace close := by
  obtain ⟨hopening, hlt, hend⟩ := h.bounds
  have htake := h.take_brace hle
  obtain ⟨above, head, hfront, hhead⟩ := h.header
  refine ⟨⟨t.take s.start ++ above, head, ?_, hhead⟩, ⟨mem_braces_iff.2 ⟨hopening, ?_⟩, h.partner⟩,
    fun e he => ⟨fun hcovers => ?_, fun hbounds => ?_⟩⟩
  · rw [htake, hfront, List.append_assoc]
  · rw [inCodeAt, htake, run_append, hstart, h.run]
    rfl
  · have hmem : e ∈ code.met brace (slice t brace (close + 1)) := by
      have hbetween := braces_between hle hlength
      rw [hstart] at hbetween
      rw [← h.met_text, Span.text, ← hbetween]
      exact List.mem_filter.2 ⟨he, hcovers⟩
    obtain ⟨hge, hlt⟩ := bounds_of_mem_met hmem
    rw [length_slice hend] at hlt
    omega
  · have htotal := congrArg List.length h.text_eq
    rw [Span.text, length_slice hlength, List.length_append, List.length_append, length_slice hend]
      at htotal
    have := h.brace_eq
    exact Span.covers_iff.2 (by omega)

end Span.Led

/-! ## Spans of a marker -/

namespace Span.Contents

variable {lead rest below feed : Text} {lines heads : List Text}

section Reading

variable (h : s.Contents t f i lead rest lines heads below feed)
include h

theorem idle_lines : ∀ l ∈ lines, IsIdle l := by
  have hmatched := h.matched
  have hheads := h.assigned.subset
  clear h
  induction hmatched with
  | nil => simp
  | @cons head line heads lines hmatches _ ih =>
    obtain ⟨hhead, hrest⟩ := List.forall_mem_cons.1 (fun l hl => hheads hl)
    refine List.forall_mem_cons.2 ⟨?_, ih fun l hl => hrest l hl⟩
    exact (hmatches.isQuotedLine (isDeclaration_of_mem_heads hhead)
      (lineFeed_not_mem_of_mem_heads hhead)).isIdle

theorem marker_line : .char '\n' ∉ f.marker ++ rest ∧
    lineEnd t i = i + (f.marker ++ rest).length := by
  obtain ⟨line, after, hdrop, hend, hline, -⟩ := exists_lineEnd t i
  have hrest : f.marker ++ rest = line := by
    rw [h.marker_rest, hend, slice, List.drop_take, Nat.add_sub_cancel_left, hdrop, List.take_left]
  rw [hrest]
  exact ⟨hline, hend⟩

theorem below_eq_nil (hflat : f.IsFlat) : below = [] := by
  cases h.block_below with
  | nothing => rfl
  | block hblock => exact absurd hflat (not_isFlat hblock)

variable (hmargin : allBlank (slice t (lineStart t i) i) = true)
include hmargin

theorem allBlank_lead : allBlank lead = true := by
  rw [h.lead_eq, if_pos hmargin]
  exact hmargin

variable (hmarker : [.char '/', .char '/'] <+: f.marker)
include hmarker

/-- Down to the last declaration line, no structural brace is in a span that begins in code, and
what follows that line is code again. -/
theorem reading_front :
    (code.run (lead ++ (f.marker ++ (rest ++ lines.flatMap (.char '\n' :: ·))))).step
      (.char '\n') = code ∧
      ∀ j, code.met j (lead ++ (f.marker ++ (rest ++ lines.flatMap (.char '\n' :: ·)))) = [] := by
  have hlead := h.allBlank_lead hmargin
  obtain ⟨w, hw⟩ := hmarker
  have hline : f.marker ++ rest = .char '/' :: .char '/' :: (w ++ rest) := by
    rw [← hw]
    rfl
  have hfeed : .char '\n' ∉ w ++ rest := by
    have hrest := h.marker_line.1
    rw [hline] at hrest
    exact fun hmem => hrest (List.mem_cons_of_mem _ (List.mem_cons_of_mem _ hmem))
  obtain ⟨hrun, hmet⟩ := reading_comment hfeed
  obtain ⟨hnext, hlines⟩ := reading_idle h.idle_lines (r := lineComment) rfl
  rw [← List.append_assoc f.marker, hline]
  constructor
  · rw [run_append, run_code_blanks hlead, run_append, hrun]
    exact hnext
  · intro j
    rw [met_append, met_append, (isIdle_of_allBlank hlead).met, run_code_blanks hlead, hmet, hrun,
      hlines]
    rfl

/-- A span without a block is its declaration lines and what leads to them. -/
theorem exists_front_of_isFlat (hflat : f.IsFlat) : ∃ front, s.text t = front ++ feed ∧
    (code.run front).step (.char '\n') = code ∧ ∀ j, code.met j front = [] := by
  obtain ⟨hnext, hmet⟩ := h.reading_front hmargin hmarker
  refine ⟨_, ?_, hnext, hmet⟩
  rw [h.text_eq, h.below_eq_nil hflat]
  simp

/-- A span with a block is a front and that block. -/
theorem exists_led {c : CodePoint} {name : Text} (hblock : f.block = some (c :: name))
    (hname : (c :: name).all isFrame = true) :
    ∃ front brace close, s.Led t (c :: name) front feed brace close := by
  obtain ⟨hnext, hmet⟩ := h.reading_front hmargin hmarker
  cases h.block_below with
  | nothing hflat => exact absurd hflat (not_isFlat hblock)
  | @block blanks c' name' head brace close hblock' hblanks hhead hbrace hclose =>
    obtain ⟨rfl, rfl⟩ := List.cons.inj (Option.some.inj (hblock'.symm.trans hblock))
    obtain ⟨hnext', hmet'⟩ :=
      reading_idle (fun l hl => isIdle_of_allBlank (hblanks l hl).2) hnext
    have hframe : head.all isFrame = true := by
      obtain ⟨margin, gap, rfl, hmargin', hgap⟩ := hhead
      rw [List.all_append, List.all_append, all_isFrame_of_isIndent hmargin', hname,
        all_isFrame_of_isIndent hgap]
      rfl
    have hrun : ∀ r : Reading, r.step (.char '\n') = code → r.run (.char '\n' :: head) = code := by
      intro r hr
      show (r.step (.char '\n')).run head = code
      rw [hr, run_code_plain (all_isPlain_of_isFrame hframe)]
    refine ⟨lead ++ (f.marker ++ (rest ++ lines.flatMap (.char '\n' :: ·))) ++
      blanks.flatMap (.char '\n' :: ·) ++ .char '\n' :: head, brace, close, ?_, h.feed_eq,
        ?_, fun j => ?_,
      ⟨_, head, rfl, hhead⟩, ?_, hclose⟩
    · rw [h.text_eq]
      simp
    · rw [run_append, run_append, hrun _ hnext']
    · rw [met_append, met_append, hmet, hmet', run_append,
        met_cons_of_ne (by decide) (by decide), hnext', met_eq_nil_of_isFrame hframe]
      rfl
    · have hstart := h.start_eq
      have hend := h.marker_line.2
      simp only [List.length_append, List.length_cons] at hbrace hend ⊢
      omega

end Reading

section Closed

variable (h : s.Contents t f i lead rest lines heads below feed) (hle : s.start ≤ s.stop)
  (hlength : s.stop ≤ t.length)
include h hle hlength

/-- Where a span without a block ends without a line feed, the text ends. -/
theorem drop_stop_eq_nil (hflat : f.IsFlat) (hfeed : feed = [])
    (hstop : t[s.stop]? ≠ some (.char '\n')) :
    t.drop s.stop = [] := by
  obtain ⟨line, after, hdrop, hend, -, hafter⟩ := exists_lineEnd t i
  have hbehind : t.drop (lineEnd t i) = after := by
    rw [hend, ← List.drop_drop, hdrop, List.drop_left]
  obtain ⟨-, hlast⟩ := drop_past_lines
    (drop_eq_flatMap_linesBelow (i := lineEnd t i) (by rwa [hbehind])) s.declarations
  have hstop' : s.stop = lineEnd t i + (lines.flatMap (.char '\n' :: ·)).length := by
    have hstart := h.start_eq
    have hline := h.marker_line.2
    have htext := congrArg List.length h.text_eq
    rw [h.below_eq_nil hflat, hfeed, Span.text, length_slice hlength] at htext
    simp only [List.length_append, List.length_nil] at htext hline
    omega
  rw [← h.lines_eq, ← hstop', List.head?_drop] at hlast
  exact hlast.resolve_right hstop

variable (hmargin : allBlank (slice t (lineStart t i) i) = true)
  (hmarker : [.char '/', .char '/'] <+: f.marker) (hstart : code.run (t.take s.start) = code)
include hmargin hmarker hstart

/-- **A span without a block is closed**, and it covers no structural brace. -/
theorem closed_of_isFlat (hflat : f.IsFlat) (hstop : feed = [] → t[s.stop]? ≠ some (.char '\n')) :
    s.Closed t ∧ ∀ e ∈ braces t, s.covers e.index = false := by
  obtain ⟨front, htext, hnext, hmet⟩ := h.exists_front_of_isFlat hmargin hmarker hflat
  have hnone : ∀ j, code.met j (s.text t) = [] := by
    intro j
    rw [htext, met_append, hmet, met_feed h.feed_eq]
    rfl
  refine ⟨⟨hstart, ?_, ?_⟩, fun e he => ?_⟩
  · rcases h.feed_eq with hfeed | hfeed
    · exact .inr (h.drop_stop_eq_nil hle hlength hflat hfeed (hstop hfeed))
    · rw [htext, hfeed, run_append]
      exact .inl hnext
  · rw [Reading.kinds, hnone]
    rfl
  · have hbetween := braces_between hle hlength
    rw [hstart, show slice t s.start s.stop = s.text t from rfl, hnone, List.filter_eq_nil_iff]
      at hbetween
    exact Bool.eq_false_iff.2 (hbetween e he)

end Closed

end Span.Contents

/-! ## Removal -/

/-- Each span that is found is the one of a marker. -/
theorem Scan.marked {found : List (Nat × Span)} {e : Option Unbounded} (h : Scan t f pos found e) :
    ∀ p ∈ found, f.marker <+: t.drop p.1 ∧ Span.ofMarker t f p.1 = .ok p.2 := by
  induction h with
  | done => simp
  | failed => simp
  | step hi hs _ ih => exact List.forall_mem_cons.2 ⟨⟨(prefix_of_searchFrom hi).2, hs⟩, ih⟩

theorem isFrame_of_name {c : CodePoint} (hc : isWord c = true ∨ c = .char '.' ∨ c = .char ' ') :
    isFrame c = true := by
  rcases hc with hc | rfl | rfl
  · simp [isFrame, hc]
  · decide
  · decide

/-- The span of a marker that is in code behind nothing but a margin is closed, and it covers the
braces of its block only. -/
theorem Span.closed_of_ofMarker (hmarker : [.char '/', .char '/'] <+: f.marker)
    (hfeed : .char '\n' ∉ f.marker)
    (hblock : ∀ name, f.block = some name →
      ∀ c ∈ name, isWord c = true ∨ c = .char '.' ∨ c = .char ' ')
    (hfront : f.marker <+: t.drop i) (hs : ofMarker t f i = .ok s)
    (hmargin : allBlank (slice t (lineStart t i) i) = true) (hcode : inCodeAt t i = true) :
    s.Closed t ∧ (f.IsFlat → ∀ e ∈ braces t, s.covers e.index = false) ∧
      ∀ c name, f.block = some (c :: name) →
        ∃ brace close, s.HoldsBlock t (c :: name) brace close := by
  have hne : f.marker ≠ [] := hmarker.ne_nil (by decide)
  have hlt := lt_length_of_prefix_drop hne hfront
  obtain ⟨hstart, hend, hboundary⟩ := ofMarker_eq_ok hs hlt
  obtain ⟨lead, rest, lines, heads, below, feed, h, hstop⟩ := exists_contents hne hfeed hfront hs
  have hle : s.start ≤ s.stop := by
    have := start_le hs hlt
    have := le_lineEnd t i
    omega
  have hread : code.run (t.take s.start) = code := by
    rw [hstart, if_pos hmargin]
    exact run_lineStart hmargin hcode
  by_cases hflat : f.IsFlat
  · obtain ⟨hclosed, hnone⟩ :=
      h.closed_of_isFlat hle hboundary.le_length hmargin hmarker hread hflat hstop
    exact ⟨hclosed, fun _ => hnone, fun c name hname => absurd hflat (not_isFlat hname)⟩
  · obtain ⟨c, name, hname⟩ : ∃ c name, f.block = some (c :: name) := by
      by_contra hnot
      exact hflat (isFlat_of_forall_ne fun c name hname => hnot ⟨c, name, hname⟩)
    have hframe : (c :: name).all isFrame = true :=
      List.all_eq_true.2 fun d hd => isFrame_of_name (hblock _ hname d hd)
    obtain ⟨front, brace, close, hled⟩ := h.exists_led hmargin hmarker hname hframe
    refine ⟨hled.closed hread, fun h => absurd h hflat, fun c' name' hname' => ?_⟩
    obtain ⟨rfl, rfl⟩ := List.cons.inj (Option.some.inj (hname.symm.trans hname'))
    exact ⟨brace, close, hled.holdsBlock hle hboundary.le_length hread⟩

/-- **Removal keeps a text balanced.** Where all markers that are found are comments of their own
lines, the structural braces of what is left are those of the text that no span covers; and a span
covers none, or all those of the block that it removes. -/
theorem remove_braces {found : List (Nat × Span)} {e : Option Unbounded}
    (hbalance : balance t = .ok ()) (hmarker : [.char '/', .char '/'] <+: f.marker)
    (hfeed : .char '\n' ∉ f.marker)
    (hblock : ∀ name, f.block = some name →
      ∀ c ∈ name, isWord c = true ∨ c = .char '.' ∨ c = .char ' ')
    (hscan : Scan t f 0 found e)
    (hfound : ∀ p ∈ found,
      allBlank (slice t (lineStart t p.1) p.1) = true ∧ inCodeAt t p.1 = true)
    (h : remove t f = .ok u) :
    balance u = .ok () ∧
    (braces u).map (·.brace) =
      ((braces t).filter fun e => !found.any (·.2.covers e.index)).map (·.brace) ∧
    ∀ p ∈ found, (f.IsFlat → ∀ e ∈ braces t, p.2.covers e.index = false) ∧
      ∀ c name, f.block = some (c :: name) →
        ∃ i j, p.2.HoldsBlock t (c :: name) i j := by
  have hne : f.marker ≠ [] := hmarker.ne_nil (by decide)
  -- the scan has come to its end, as the removal succeeds
  rw [remove_eq] at h
  obtain ⟨ss, hss, hu⟩ := exists_of_map_eq_ok h
  obtain ⟨found', hscan', rfl⟩ := exists_scan_of_spans hne hfeed hss
  obtain ⟨rfl, rfl⟩ := hscan'.unique hscan
  have hspans : ∀ p ∈ found, _ := fun p hp =>
    Span.closed_of_ofMarker hmarker hfeed hblock (hscan.marked p hp).1 (hscan.marked p hp).2
      (hfound p hp).1 (hfound p hp).2
  have hclosed : ∀ s ∈ found.map (·.2), s.Closed t := by
    intro s hs
    obtain ⟨p, hp, rfl⟩ := List.mem_map.1 hs
    exact (hspans p hp).1
  obtain ⟨hkinds, hlevel⟩ :=
    (hscan.apart hne hfeed .start).kinds_cutAll hclosed (.inl rfl)
  rw [List.drop_zero, List.drop_zero, hu] at hkinds hlevel
  refine ⟨?_, ?_, fun p hp => (hspans p hp).2⟩
  · rw [balance_eq_ok_iff_kinds] at hbalance ⊢
    rw [hlevel, hbalance]
  · rw [braces_eq_met, map_brace_met, hkinds, ← braces_eq_met]
    simp only [List.any_map]
    rfl

/-- A fragment with a declaration line and a block. -/
def blockFragment : Fragment where
  marker := "// m".toText
  template := "implementation '$v'\nfoo.bar \x7b\n\x7d".toText
  anchor := .endOfFile
  block := some "foo.bar".toText

/-- A text that has it twice: with a backslash before the second quote and text behind the block,
and with a blank line before it at the end. -/
def excisedText : Text :=
  ("x \x7b\n\x7d\n\n// m\nimplementation 'a\\'\nfoo.bar \x7b\n  y \x7b \x7d\n\x7d z ".toText ++
    "\x7b\n\x7d\n\n// m\nfoo.bar \x7b\n\x7d".toText)

/-- Three blocks are gone with it, one in another, and two are left. -/
theorem remove_braces_excisedText :
    balance excisedText = .ok () ∧ [.char '/', .char '/'] <+: blockFragment.marker ∧
    .char '\n' ∉ blockFragment.marker ∧
    (∀ name, blockFragment.block = some name →
      ∀ c ∈ name, isWord c = true ∨ c = .char '.' ∨ c = .char ' ') ∧
    Scan excisedText blockFragment 0 [(7, ⟨7, 51, 1⟩), (59, ⟨59, 75, 0⟩)] none ∧
    ∃ u, remove excisedText blockFragment = .ok u ∧ balance u = .ok () ∧
      (braces u).map (·.brace) = [.opening, .closing, .opening, .closing] ∧
      ∃ i j, Span.HoldsBlock ⟨7, 51, 1⟩ excisedText "foo.bar".toText i j := by
  have hbalance : balance excisedText = .ok () := by
    unfold excisedText
    rw [String.toText_ofList]
    exact eq_ok_of_toOption (by decide)
  have hmarker : [.char '/', .char '/'] <+: blockFragment.marker := by decide
  have hfeed : .char '\n' ∉ blockFragment.marker := by decide
  have hblock : ∀ name, blockFragment.block = some name →
      ∀ c ∈ name, isWord c = true ∨ c = .char '.' ∨ c = .char ' ' := by
    intro name hname
    obtain rfl : "foo.bar".toText = name := Option.some.inj hname
    rw [String.toText_ofList]
    decide
  have hscan : Scan excisedText blockFragment 0 [(7, ⟨7, 51, 1⟩), (59, ⟨59, 75, 0⟩)] none := by
    unfold excisedText blockFragment
    repeat rw [String.toText_ofList]
    exact .step (by decide) (eq_ok_of_toOption (by decide)) <|
      .step (by decide) (eq_ok_of_toOption (by decide)) (.done (by decide))
  have hfound : ∀ p ∈ [(7, (⟨7, 51, 1⟩ : Span)), (59, ⟨59, 75, 0⟩)],
      allBlank (slice excisedText (lineStart excisedText p.1) p.1) = true ∧
        inCodeAt excisedText p.1 = true := by
    unfold excisedText
    rw [String.toText_ofList]
    decide
  obtain ⟨u, hu⟩ : ∃ u, remove excisedText blockFragment = .ok u := by
    obtain ⟨found, e, hscan', hok, -⟩ :=
      exists_scan (t := excisedText) (f := blockFragment) (by decide) hfeed
    obtain ⟨rfl, rfl⟩ := hscan.unique hscan'
    exact ⟨_, by rw [remove_eq, hok rfl]; rfl⟩
  obtain ⟨hbalance', hbraces, hspans⟩ :=
    remove_braces hbalance hmarker hfeed hblock hscan hfound hu
  refine ⟨hbalance, hmarker, hfeed, hblock, hscan, u, hu, hbalance', hbraces.trans ?_, ?_⟩
  · unfold excisedText
    rw [String.toText_ofList]
    decide
  · exact (hspans _ List.mem_cons_self).2 (.char 'f') "oo.bar".toText rfl

end Graft
