import Graft.Proofs.Edit.Contents
import Graft.Proofs.Edit.Cutting

/-!
# Whole lines

A cut may leave a line of the user behind what stood before the span on the line of its marker. It
does so if the span starts behind other text, takes the line feed at its end, and something follows
on the next line. Nothing else happens to the lines that no span touches:

> `remove_lines`: every line that no span touches is the end of a line of what is left, in order, and
> a whole line of it if every span keeps a line break.
> `remove_joins_lines`: a declaration may become part of a comment.
-/

namespace Graft

open Text

variable {t u x y : Text} {a ls ms : List Text} {b : Text} {f : Fragment} {pos i : Nat} {s : Span}
  {ss : List Span} {found : List (Nat × Span)}

/-! ## Lines of texts that are put together -/

namespace Text

/-- A text is a line, or a line and, behind its line feed, another text. -/
theorem induction_lines {P : Text → Prop} (hline : ∀ l, .char '\n' ∉ l → P l)
    (hcons : ∀ l r, .char '\n' ∉ l → P r → P (l ++ .char '\n' :: r)) (x : Text) : P x := by
  induction hlength : x.length using Nat.strongRecOn generalizing x with
  | ind n ih =>
    obtain ⟨l, ls, hx⟩ := List.exists_cons_of_ne_nil (splitLines_ne_nil x)
    obtain ⟨hl, ⟨-, rfl⟩ | ⟨rest, rfl, -⟩⟩ := splitLines_eq_cons hx
    · exact hline x hl
    · rw [List.length_append, List.length_cons] at hlength
      exact hcons l rest hl (ih _ (by omega) rest rfl)

theorem splitLines_append_lineFeed (x y : Text) :
    splitLines (x ++ .char '\n' :: y) = splitLines x ++ splitLines y := by
  induction x using induction_lines with
  | hline l hl => rw [splitLines_append hl, splitLines_of_not_mem hl, List.singleton_append]
  | hcons l r hl ih =>
    rw [List.append_assoc, List.cons_append, splitLines_append hl, splitLines_append hl, ih]
    rfl

theorem exists_splitLines (x : Text) : ∃ a b, splitLines x = a ++ [b] := by
  rcases List.eq_nil_or_concat (splitLines x) with h | ⟨a, b, h⟩
  · exact absurd h (splitLines_ne_nil x)
  · exact ⟨a, b, by rw [h, List.concat_eq_append]⟩

/-- The last line of a text is what is left of it behind the line feeds of the others. -/
theorem splitLines_eq_concat (hx : splitLines x = a ++ [b]) :
    x = a.flatMap (· ++ [.char '\n']) ++ b ∧ .char '\n' ∉ b ∧
      (b = [] ↔ x = [] ∨ x.getLast? = some (.char '\n')) := by
  induction x using induction_lines generalizing a with
  | hline l hl =>
    rw [splitLines_of_not_mem hl] at hx
    obtain ⟨rfl, hb⟩ := List.append_inj' (hx.symm.trans (List.nil_append [l]).symm) rfl
    obtain rfl := (List.cons.inj hb).1
    refine ⟨rfl, hl, .inl, ?_⟩
    rintro (h | hlast)
    · exact h
    · exact absurd (List.mem_of_getLast? hlast) hl
  | hcons l r hl ih =>
    rw [splitLines_append hl] at hx
    cases a with
    | nil => exact absurd (List.cons.inj hx).2 (splitLines_ne_nil r)
    | cons m a =>
      obtain ⟨rfl, hr⟩ := List.cons.inj hx
      obtain ⟨hsplit, hb, hempty⟩ := ih hr
      refine ⟨?_, hb, hempty.trans ?_⟩
      · rw [List.flatMap_cons, List.append_assoc, ← hsplit, List.append_assoc]
        rfl
      · cases r with
        | nil => simp
        | cons c r =>
          rw [List.getLast?_append, List.getLast?_cons_cons]
          simp

/-- Where texts are put together, the last line of the one and the first of the other become one. -/
theorem splitLines_append_eq {c : Text} {d : List Text} (hx : splitLines x = a ++ [b])
    (hy : splitLines y = c :: d) : splitLines (x ++ y) = a ++ (b ++ c) :: d := by
  induction x using induction_lines generalizing a with
  | hline l hl =>
    rw [splitLines_of_not_mem hl] at hx
    obtain ⟨rfl, hb⟩ := List.append_inj' (hx.symm.trans (List.nil_append [l]).symm) rfl
    rw [List.cons.inj hb |>.1]
    exact splitLines_append_left hl hy
  | hcons l r hl ih =>
    rw [splitLines_append hl] at hx
    cases a with
    | nil => exact absurd (List.cons.inj hx).2 (splitLines_ne_nil r)
    | cons m a =>
      obtain ⟨rfl, hr⟩ := List.cons.inj hx
      rw [List.append_assoc, List.cons_append, splitLines_append hl, ih hr]
      rfl

/-- A line starts where what precedes it ends with a line feed. -/
theorem startsLine_iff {j : Nat} (hij : i < j) (hj : j ≤ t.length) :
    StartsLine t j ↔ (slice t i j).getLast? = some (.char '\n') := by
  have hlength := length_slice (i := i) hj
  constructor
  · intro h
    refine (h.slice_eq i).resolve_left fun hnil => ?_
    rw [hnil, List.length_nil] at hlength
    omega
  · intro h
    right
    rwa [List.getLast?_eq_getElem?, hlength, getElem?_slice, if_pos (by omega),
      show i + (j - i - 1) = j - 1 by omega] at h

end Text

/-! ## Lines that no span touches -/

/-- Whether a span has a character of a line that starts at index `i`. -/
def Span.touches (s : Span) (i : Nat) (line : Text) : Bool :=
  decide (s.start < i + line.length) && decide (i < s.stop)

/-- The lines that are not blank and that no span touches, the first line starting at index `i`. -/
def untouched (ss : List Span) : Nat → List Text → List Text
  | _, [] => []
  | i, line :: below =>
    if allBlank line || ss.any (·.touches i line) then untouched ss (i + line.length + 1) below
    else line :: untouched ss (i + line.length + 1) below

theorem allBlank_of_mem_untouched {l : Text} (h : l ∈ untouched ss i ls) : allBlank l = false := by
  fun_induction untouched ss i ls with
  | case1 => cases h
  | case2 i line below _ ih => exact ih h
  | case3 i line below hkept ih =>
    rcases List.mem_cons.1 h with rfl | h
    · rw [Bool.or_eq_true, not_or, Bool.not_eq_true] at hkept
      exact hkept.1
    · exact ih h

theorem untouched_append (ss : List Span) (i : Nat) (ls ms : List Text) :
    untouched ss i (ls ++ ms) = untouched ss i ls ++
      untouched ss (i + (ls.flatMap (· ++ [.char '\n'])).length) ms := by
  induction ls generalizing i with
  | nil => rfl
  | cons l ls ih =>
    have hlength : i + ((l :: ls).flatMap (· ++ [.char '\n'])).length =
        i + l.length + 1 + (ls.flatMap (· ++ [.char '\n'])).length := by
      simp only [List.flatMap_cons, List.length_append, List.length_cons, List.length_nil]
      omega
    rw [List.cons_append, untouched, untouched, ih, hlength]
    split <;> rfl

/-- No span touches lines before all of them. -/
theorem untouched_before (h : ∀ s ∈ ss, i + (ls.flatMap (· ++ [.char '\n'])).length ≤ s.start) :
    untouched ss i ls = ls.filter (!allBlank ·) := by
  induction ls generalizing i with
  | nil => rfl
  | cons l ls ih =>
    simp only [List.flatMap_cons, List.length_append, List.length_cons, List.length_nil] at h
    have hnone : ss.any (·.touches i l) = false := by
      rw [List.any_eq_false]
      intro s hs htouches
      have := of_decide_eq_true (Bool.and_eq_true_iff.1 htouches).1
      have := h s hs
      omega
    rw [untouched, hnone, Bool.or_false, ih fun s hs => by have := h s hs; omega]
    cases hblank : allBlank l with
    | true => rw [if_pos rfl, List.filter_cons_of_neg (by simp [hblank])]
    | false => rw [if_neg (by simp), List.filter_cons_of_pos (by simp [hblank])]

/-- A line that a span has a character of is touched by it, or blank. -/
theorem untouched_cons_touched {l : Text} (hs : s ∈ ss) (hstart : l ≠ [] → s.start < i + l.length)
    (hstop : i < s.stop) :
    untouched ss i (l :: ls) = untouched ss (i + l.length + 1) ls := by
  rw [untouched, if_pos]
  cases hblank : allBlank l with
  | true => rfl
  | false =>
    have hne : l ≠ [] := by
      rintro rfl
      cases hblank
    rw [Bool.false_or, List.any_eq_true]
    exact ⟨s, hs, Bool.and_eq_true_iff.2 ⟨decide_eq_true (hstart hne), decide_eq_true hstop⟩⟩

/-- A span touches the lines within it. -/
theorem untouched_within (hs : s ∈ ss) (hstart : s.start ≤ i)
    (hstop : i + (ls.flatMap (· ++ [.char '\n'])).length ≤ s.stop) : untouched ss i ls = [] := by
  induction ls generalizing i with
  | nil => rfl
  | cons l ls ih =>
    simp only [List.flatMap_cons, List.length_append, List.length_cons, List.length_nil] at hstop
    have hfirst : l ≠ [] → s.start < i + l.length := by
      intro hne
      have := List.length_pos_iff.2 hne
      omega
    rw [untouched_cons_touched hs hfirst (by omega), ih (by omega) (by omega)]

/-- A span touches nothing behind it. -/
theorem untouched_past (h : s.stop ≤ i) (ls : List Text) :
    untouched (s :: ss) i ls = untouched ss i ls := by
  induction ls generalizing i with
  | nil => rfl
  | cons l ls ih =>
    have hnot : s.touches i l = false := by
      rw [Span.touches, Bool.and_eq_false_iff]
      exact .inr (decide_eq_false (by omega))
    rw [untouched, untouched, List.any_cons, hnot, Bool.false_or, ih (by omega)]

instance (t : Text) (i : Nat) : Decidable (StartsLine t i) :=
  inferInstanceAs (Decidable (_ ∨ _))

/-- The lines from index `pos` on that are not blank and that no span touches; one that started before
does not count. -/
def untouchedFrom (ss : List Span) (t : Text) (pos : Nat) : List Text :=
  if StartsLine t pos then untouched ss pos (splitLines (t.drop pos))
  else untouched ss (pos + ((splitLines (t.drop pos)).headD []).length + 1)
    (splitLines (t.drop pos)).tail

/-- The lines below the line of a marker are those of the rest of the span and of what follows it, and
no line of the former is untouched. -/
theorem untouched_rest {z y : Text} (htext : s.text t = z ++ .char '\n' :: y)
    (hlt : s.start < s.stop)
    (hle : s.stop ≤ t.length) : untouched (s :: ss) (s.start + z.length + 1)
      (splitLines (y ++ t.drop s.stop)) = untouchedFrom ss t s.stop := by
  obtain ⟨a, b, hy⟩ := exists_splitLines y
  obtain ⟨c, d, hrest⟩ := List.exists_cons_of_ne_nil (splitLines_ne_nil (t.drop s.stop))
  obtain ⟨hsplit, -, hb⟩ := splitLines_eq_concat hy
  have hlength := length_slice (i := s.start) hle
  have hylength := congrArg List.length hsplit
  rw [← Span.text, htext] at hlength
  simp only [List.length_append, List.length_cons] at hlength hylength
  -- the span ends a line if nothing is left of it behind its last line feed
  have hends : StartsLine t s.stop ↔ b = [] := by
    rw [startsLine_iff hlt hle, ← Span.text, htext, hb, List.getLast?_append]
    cases y with
    | nil => simp
    | cons e y => simp
  rw [splitLines_append_eq hy hrest, untouched_append, untouched_within List.mem_cons_self
    (by omega) (by omega), List.nil_append, untouchedFrom, hrest]
  by_cases hnil : b = []
  · have hstop : s.start + z.length + 1 + (a.flatMap (· ++ [.char '\n'])).length = s.stop := by
      rw [hnil, List.length_nil] at hylength
      omega
    rw [if_pos (hends.2 hnil), hstop, hnil, List.nil_append, untouched_past (Nat.le_refl _)]
  · have hpos := List.length_pos_iff.2 hnil
    have hnext : s.start + z.length + 1 + (a.flatMap (· ++ [.char '\n'])).length +
        (b ++ c).length + 1 = s.stop + c.length + 1 := by
      rw [List.length_append]
      omega
    have hfirst : b ++ c ≠ [] → s.start <
        s.start + z.length + 1 + (a.flatMap (· ++ [.char '\n'])).length + (b ++ c).length := by
      intro _
      omega
    rw [if_neg (mt hends.1 hnil), untouched_cons_touched List.mem_cons_self hfirst (by omega),
      hnext, untouched_past (by omega)]
    rfl

/-- The lines from a place on are those before the first span, the line of its marker, and the lines
of the rest of the span and of what follows it. -/
theorem Apart.splitLines_drop {z y : Text} (h : Apart t pos (s :: ss))
    (hx : splitLines (slice t pos s.start) = a ++ [b]) (htext : s.text t = z ++ .char '\n' :: y)
    (hfeed : .char '\n' ∉ z) :
    splitLines (t.drop pos) = a ++ ((b ++ z) :: splitLines (y ++ t.drop s.stop)) := by
  cases h with
  | cons hstart hstop _ _ =>
    rw [slice_append_text hstart hstop t, htext, List.append_assoc, List.cons_append,
      ← List.append_assoc, splitLines_append_lineFeed,
      splitLines_append_eq hx (splitLines_of_not_mem hfeed), List.append_assoc]
    rfl

/-- **The untouched lines** from a place on are those before the first span, the line of its marker
apart, and those from the end of the span on. -/
theorem Apart.untouchedFrom_cons {z y : Text} (h : Apart t pos (s :: ss))
    (hx : splitLines (slice t pos s.start) = a ++ [b]) (htext : s.text t = z ++ .char '\n' :: y)
    (hz : z ≠ []) (hfeed : .char '\n' ∉ z) : untouchedFrom (s :: ss) t pos =
      (if StartsLine t pos then a else a.tail).filter (!allBlank ·) ++
        untouchedFrom ss t s.stop := by
  have hlines := h.splitLines_drop hx htext hfeed
  cases h with
  | cons hstart hstop _ hrest =>
    have hle := hrest.le_length
    have hlt : s.start < s.stop := by
      have hlength := length_slice (i := s.start) hle
      rw [← Span.text, htext] at hlength
      simp only [List.length_append, List.length_cons] at hlength
      omega
    obtain ⟨hsplit, -, -⟩ := splitLines_eq_concat hx
    have hlength : (slice t pos s.start).length = s.start - pos := length_slice (by omega)
    have hxlength := congrArg List.length hsplit
    rw [List.length_append, hlength] at hxlength
    have hbelow : untouched (s :: ss) (s.start + z.length + 1) _ = _ := untouched_rest htext hlt hle
    have hpos := List.length_pos_iff.2 hz
    -- the line of the marker is touched, wherever the reading of the lines before it starts
    have hmarker : ∀ i ls, i + (ls.flatMap (· ++ [.char '\n'])).length + b.length = s.start →
        untouched (s :: ss) i (ls ++ ((b ++ z) :: splitLines (y ++ t.drop s.stop))) =
          ls.filter (!allBlank ·) ++ untouchedFrom ss t s.stop := by
      intro i ls hi
      have hbefore : ∀ s' ∈ s :: ss, i + (ls.flatMap (· ++ [.char '\n'])).length ≤ s'.start := by
        intro s' hs'
        rcases List.mem_cons.1 hs' with rfl | hs'
        · omega
        · have := hrest.le_start s' hs'
          omega
      have hnext : i + (ls.flatMap (· ++ [.char '\n'])).length + (b ++ z).length + 1 =
          s.start + z.length + 1 := by
        rw [List.length_append]
        omega
      have hfirst : b ++ z ≠ [] → s.start <
          i + (ls.flatMap (· ++ [.char '\n'])).length + (b ++ z).length := by
        intro _
        omega
      rw [untouched_append, untouched_before hbefore, untouched_cons_touched List.mem_cons_self hfirst
        (by omega), hnext, hbelow]
    rw [untouchedFrom, hlines]
    split
    · exact hmarker pos a (by omega)
    · cases a with
      | nil =>
        have hnext : pos + (b ++ z).length + 1 = s.start + z.length + 1 := by
          rw [List.flatMap_nil, List.length_nil] at hxlength
          rw [List.length_append]
          omega
        show untouched (s :: ss) (pos + (b ++ z).length + 1) (splitLines (y ++ t.drop s.stop)) =
          untouchedFrom ss t s.stop
        rw [hnext, hbelow]
      | cons l a =>
        simp only [List.flatMap_cons, List.length_append, List.length_cons, List.length_nil] at hxlength
        exact hmarker (pos + l.length + 1) a (by omega)

/-- A span starts on the line of its marker, and that line ends within the span. -/
theorem Span.exists_text_eq (hne : f.marker ≠ []) (hfeed : .char '\n' ∉ f.marker)
    (hi : searchFrom f.marker t pos = some i) (hs : Span.ofMarker t f i = .ok s) :
    ∃ z y, s.text t = z ++ .char '\n' :: y ∧ z ≠ [] ∧ .char '\n' ∉ z ∧ f.marker <:+: z := by
  obtain ⟨lead, rest, lines, heads, below, feed, h, -⟩ :=
    Span.exists_contents hne hfeed (prefix_of_searchFrom hi).2 hs
  have hlead : .char '\n' ∉ lead := by
    rw [h.lead_eq]
    split
    · obtain ⟨above, line, htake, hstart, hline, -⟩ := exists_lineStart t i
      rwa [slice, htake, hstart, List.drop_left]
    · exact List.not_mem_nil
  have hrest : .char '\n' ∉ f.marker ++ rest := by
    obtain ⟨line, after, hdrop, hend, hline, -⟩ := exists_lineEnd t i
    rwa [h.marker_rest, hend, slice, List.drop_take, Nat.add_sub_cancel_left, hdrop, List.take_left]
  obtain ⟨y, hy⟩ : ∃ y, lines.flatMap (.char '\n' :: ·) ++ (below ++ feed) = .char '\n' :: y := by
    cases hlines : lines with
    | cons l ls => exact ⟨_, rfl⟩
    | nil =>
      cases h.block_below with
      | nothing hflat => exact absurd hlines (h.lines_ne_nil hflat)
      | @block blanks c name head brace close =>
        cases blanks with
        | nil => exact ⟨_, rfl⟩
        | cons m ms => exact ⟨_, rfl⟩
  refine ⟨lead ++ (f.marker ++ rest), y, ?_, ?_, ?_, ?_⟩
  · rw [h.text_eq, hy]
    simp
  · simp [hne]
  · rw [List.mem_append, not_or]
    exact ⟨hlead, hrest⟩
  · exact ((List.prefix_append _ _).isInfix).trans (List.suffix_append _ _).isInfix

/-! ## The lines of what is left -/

/-- The lines of what is left are those before the first span and those left behind it. Where they
meet, two lines become one, or else an empty line is gone. -/
theorem Apart.splitLines_cutAll {ys : List Text} (h : Apart t pos (s :: ss))
    (hx : splitLines (slice t pos s.start) = a ++ [b])
    (hy : splitLines ((cutAll ss t).drop s.stop) = y :: ys) :
    splitLines ((cutAll (s :: ss) t).drop pos) = a ++ (b ++ y) :: ys ∨
    (y = [] ∧ (a ≠ [] ∨ StartsLine t s.start) ∧
      splitLines ((cutAll (s :: ss) t).drop pos) = a ++ ys) := by
  rcases h.drop_cutAll with heq | ⟨x, hsplit, hends, hbehind, heq⟩ | ⟨v, hv, hline, heq⟩
  · left
    rw [heq, splitLines_append_eq hx hy]
  · right
    obtain ⟨a', b', hx'⟩ := exists_splitLines x
    obtain rfl := (splitLines_eq_concat hx').2.2.2 hends
    obtain ⟨rfl, -⟩ : a = a' ++ [[]] ∧ [b] = [[]] := by
      rw [hsplit] at hx
      have hlines := splitLines_append_lineFeed x []
      rw [hx', splitLines_nil] at hlines
      exact List.append_inj' (hx.symm.trans hlines) rfl
    obtain rfl : y = [] := by
      rcases hbehind with hnil | hfeed
      · rw [hnil] at hy
        exact (List.cons.inj hy).1.symm
      · obtain ⟨v, hv⟩ := List.head?_eq_some_iff.1 hfeed
        rw [hv] at hy
        exact (List.cons.inj hy).1.symm
    refine ⟨rfl, .inl (by simp), ?_⟩
    rw [heq, splitLines_append_eq hx' hy]
    simp
  · right
    rw [hv, splitLines_lineFeed] at hy
    obtain ⟨rfl, rfl⟩ := List.cons.inj hy
    obtain rfl := (splitLines_eq_concat hx).2.2.2 (hline.slice_eq pos)
    obtain ⟨c, d, hlines⟩ := List.exists_cons_of_ne_nil (splitLines_ne_nil v)
    refine ⟨rfl, .inr hline, ?_⟩
    rw [heq, splitLines_append_eq hx hlines, hlines]
    rfl

/-- Whether a line break is left where a span has been cut out: the span starts a line, or it does not
end one, or what follows on the next line is blank. -/
def Span.KeepsBreak (s : Span) (t marker : Text) : Prop :=
  StartsLine t s.start ∨ ¬ StartsLine t s.stop ∨
    (allBlank ((splitLines (t.drop s.stop)).headD []) = true ∧
      search marker ((splitLines (t.drop s.stop)).headD []) = none)

instance (s : Span) (t marker : Text) : Decidable (s.KeepsBreak t marker) :=
  inferInstanceAs (Decidable (_ ∨ _ ∨ _))

theorem allBlank_of_mem_untouchedFrom {l : Text} (h : l ∈ untouchedFrom ss t pos) :
    allBlank l = false := by
  unfold untouchedFrom at h
  split at h
  · exact allBlank_of_mem_untouched h
  · exact allBlank_of_mem_untouched h

/-- Where there are no spans, all lines are untouched. -/
theorem untouchedFrom_nil_sublist (t : Text) (pos : Nat) : (untouchedFrom [] t pos).Sublist
    (if StartsLine t pos then splitLines (t.drop pos) else (splitLines (t.drop pos)).tail) := by
  unfold untouchedFrom
  split
  · rw [untouched_before (by simp)]
    exact List.filter_sublist
  · rw [untouched_before (by simp)]
    exact List.filter_sublist

/-- A line that is not blank is not one that is. -/
theorem sublist_of_cons_blank {l : Text} (hls : ∀ m ∈ ls, allBlank m = false) (hl : allBlank l = true)
    (h : ls.Sublist (l :: ms)) : ls.Sublist ms := by
  rcases List.sublist_cons_iff.1 h with h | ⟨rest, rfl, -⟩
  · exact h
  · rw [hls l List.mem_cons_self] at hl
    cases hl

/-! ## Every untouched line is the end of a line -/

/-- Lines are in order among other lines, each the end of one. -/
abbrev Ends (ls ms : List Text) : Prop :=
  List.SublistForall₂ (· <:+ ·) ls ms

section Ends

variable {ls' ms' : List Text} {l : Text}

theorem Ends.append (h : ls.Sublist ms) (h' : Ends ls' ms') : Ends (ls ++ ls') (ms ++ ms') := by
  induction h with
  | slnil => exact h'
  | cons m _ ih => exact .cons_right ih
  | cons_cons m _ ih => exact .cons (List.suffix_refl m) ih

theorem Ends.lengthen (h : Ends ls (l :: ms)) (b : Text) : Ends ls ((b ++ l) :: ms) := by
  cases h with
  | nil => exact .nil
  | cons hl h => exact .cons (hl.trans (List.suffix_append b l)) h
  | cons_right h => exact .cons_right h

/-- What is not blank does not end an empty line. -/
theorem Ends.of_cons_nil (hls : ∀ l ∈ ls, allBlank l = false) (h : Ends ls ([] :: ms)) :
    Ends ls ms := by
  cases h with
  | nil => exact .nil
  | cons hl _ =>
    rw [List.suffix_nil.1 hl] at hls
    cases hls [] List.mem_cons_self
  | cons_right h => exact h

end Ends

section Removal

variable (hne : f.marker ≠ []) (hfeed : .char '\n' ∉ f.marker)
include hne hfeed

/-- The untouched lines from a place on, and the lines of what is left, both for the first span and
the rest. -/
theorem Scan.exists_step (hpos : Boundary t pos)
    (hi : searchFrom f.marker t pos = some i) (hs : Span.ofMarker t f i = .ok s)
    (hrest : Scan t f s.stop found none) : ∃ a b y ys,
      (StartsLine t s.start → b = [] ∧ (a = [] → StartsLine t pos)) ∧
      (∃ z below, splitLines (t.drop pos) = a ++ ((b ++ z) :: below) ∧ f.marker <:+: z) ∧
      splitLines ((cutAll (found.map (·.2)) t).drop s.stop) = y :: ys ∧
      untouchedFrom (s :: found.map (·.2)) t pos =
        (if StartsLine t pos then a else a.tail).filter (!allBlank ·) ++
          untouchedFrom (found.map (·.2)) t s.stop ∧
      (splitLines ((cutAll (s :: found.map (·.2)) t).drop pos) = a ++ (b ++ y) :: ys ∨
        (y = [] ∧ (a ≠ [] ∨ StartsLine t s.start) ∧
          splitLines ((cutAll (s :: found.map (·.2)) t).drop pos) = a ++ ys)) := by
  have hapart : Apart t pos (s :: found.map (·.2)) :=
    (Scan.step hi hs hrest).apart hne hfeed hpos
  obtain ⟨z, w, htext, hz, hzfeed, hmarker⟩ := Span.exists_text_eq hne hfeed hi hs
  obtain ⟨a, b, hx⟩ := exists_splitLines (slice t pos s.start)
  obtain ⟨y, ys, hy⟩ := List.exists_cons_of_ne_nil
    (splitLines_ne_nil ((cutAll (found.map (·.2)) t).drop s.stop))
  have hline : StartsLine t s.start → b = [] ∧ (a = [] → StartsLine t pos) := by
    intro hline
    obtain ⟨hsplit, -, hb⟩ := splitLines_eq_concat hx
    obtain rfl := hb.2 (hline.slice_eq pos)
    refine ⟨rfl, ?_⟩
    rintro rfl
    -- there is nothing between that place and the span
    cases hapart with
    | cons hstart hstop _ hbehind =>
      have hle := hbehind.le_length
      have hlength := length_slice (t := t) (i := pos) (j := s.start) (by omega)
      rw [hsplit, List.flatMap_nil, List.append_nil, List.length_nil] at hlength
      rwa [show pos = s.start by omega]
  exact ⟨a, b, y, ys, hline, ⟨z, _, hapart.splitLines_drop hx htext hzfeed, hmarker⟩, hy,
    hapart.untouchedFrom_cons hx htext hz hzfeed, hapart.splitLines_cutAll hx hy⟩

theorem Scan.ends_untouchedFrom (hpos : Boundary t pos) (h : Scan t f pos found none) :
    Ends (untouchedFrom (found.map (·.2)) t pos)
      (splitLines ((cutAll (found.map (·.2)) t).drop pos)) := by
  generalize hr : (none : Option Unbounded) = r at h
  induction h with
  | failed => cases hr
  | @done pos h =>
    have hsub := untouchedFrom_nil_sublist t pos
    have hall : (untouchedFrom [] t pos).Sublist (splitLines (t.drop pos)) := by
      split at hsub
      · exact hsub
      · exact hsub.trans (List.tail_sublist _)
    have hends : Ends (untouchedFrom [] t pos ++ []) (splitLines (t.drop pos) ++ []) :=
      Ends.append hall .nil
    rwa [List.append_nil, List.append_nil] at hends
  | @step pos i s found r hi hs hrest ih =>
    subst hr
    obtain ⟨a, b, y, ys, -, -, hy, hkept, hlines⟩ :=
      Scan.exists_step hne hfeed hpos hi hs hrest
    have hbelow := ih (Span.around_marker hne hfeed hi hs).2.2.2 rfl
    rw [hy] at hbelow
    have hfront : ((if StartsLine t pos then a else a.tail).filter (!allBlank ·)).Sublist a := by
      split
      · exact List.filter_sublist
      · exact List.filter_sublist.trans (List.tail_sublist a)
    rw [List.map_cons, hkept]
    rcases hlines with hlines | ⟨rfl, -, hlines⟩
    · rw [hlines]
      exact Ends.append hfront (hbelow.lengthen b)
    · rw [hlines]
      exact Ends.append hfront (hbelow.of_cons_nil fun l hl => allBlank_of_mem_untouchedFrom hl)

/-! ## Untouched lines stay whole -/

/-- The first line from a place on is left as it is, if the marker is not on it. -/
theorem Scan.first_line (hpos : Boundary t pos) (h : Scan t f pos found none) {c c' : Text}
    {d d' : List Text} (hline : splitLines (t.drop pos) = c :: d) (hc : search f.marker c = none)
    (hleft : splitLines ((cutAll (found.map (·.2)) t).drop pos) = c' :: d') : c' = c := by
  cases h with
  | done => exact (List.cons.inj (hleft.symm.trans hline)).1
  | step hi hs hrest =>
    obtain ⟨a, b, y, ys, -, ⟨z, below, hwhole, hmarker⟩, -, -, hlines⟩ :=
      Scan.exists_step hne hfeed hpos hi hs hrest
    rw [hwhole] at hline
    cases a with
    | nil =>
      -- the marker would be on that line
      obtain ⟨rfl, -⟩ := List.cons.inj hline
      exact absurd (hmarker.trans (List.suffix_append b z).isInfix) (search_eq_none_iff.1 hc)
    | cons l a =>
      obtain ⟨rfl, -⟩ := List.cons.inj hline
      rcases hlines with hlines | ⟨-, -, hlines⟩
      · exact (List.cons.inj (hleft.symm.trans hlines)).1
      · exact (List.cons.inj (hleft.symm.trans hlines)).1

theorem Scan.untouchedFrom_sublist (hpos : Boundary t pos) (h : Scan t f pos found none)
    (hkeeps : ∀ p ∈ found, p.2.KeepsBreak t f.marker) :
    (untouchedFrom (found.map (·.2)) t pos).Sublist
      (if StartsLine t pos then splitLines ((cutAll (found.map (·.2)) t).drop pos)
        else (splitLines ((cutAll (found.map (·.2)) t).drop pos)).tail) := by
  generalize hr : (none : Option Unbounded) = r at h
  induction h with
  | failed => cases hr
  | @done pos h => exact untouchedFrom_nil_sublist t pos
  | @step pos i s found r hi hs hrest ih =>
    subst hr
    obtain ⟨hbreak, hkeeps⟩ := List.forall_mem_cons.1 hkeeps
    have hboundary := (Span.around_marker hne hfeed hi hs).2.2.2
    obtain ⟨a, b, y, ys, hstart, -, hy, hkept, hlines⟩ :=
      Scan.exists_step hne hfeed hpos hi hs hrest
    have hsolid : ∀ l ∈ untouchedFrom (found.map (·.2)) t s.stop, allBlank l = false :=
      fun l hl => allBlank_of_mem_untouchedFrom hl
    have hbelow := ih hboundary hkeeps rfl
    rw [hy] at hbelow
    have hall : (untouchedFrom (found.map (·.2)) t s.stop).Sublist (y :: ys) := by
      split at hbelow
      · exact hbelow
      · exact hbelow.cons y
    -- a line that becomes part of another one does not count
    have hlater : (untouchedFrom (found.map (·.2)) t s.stop).Sublist ys ∨ StartsLine t s.start := by
      rcases hbreak with hline | hline | ⟨hblank, hnone⟩
      · exact .inr hline
      · rw [if_neg hline] at hbelow
        exact .inl hbelow
      · obtain ⟨c, d, hc⟩ := List.exists_cons_of_ne_nil (splitLines_ne_nil (t.drop s.stop))
        rw [hc] at hblank hnone
        obtain rfl := hrest.first_line hne hfeed hboundary hc hnone hy
        exact .inl (sublist_of_cons_blank hsolid hblank hall)
    rw [List.map_cons, hkept]
    rcases hlines with hlines | ⟨rfl, hempty, hlines⟩
    · rw [hlines]
      have hjoined : (untouchedFrom (found.map (·.2)) t s.stop).Sublist ((b ++ y) :: ys) := by
        rcases hlater with hlater | hline
        · exact hlater.cons _
        · rwa [(hstart hline).1]
      split
      · exact List.filter_sublist.append hjoined
      · next hinside =>
        cases a with
        | nil => exact hlater.resolve_right fun hline => hinside ((hstart hline).2 rfl)
        | cons l a => exact List.filter_sublist.append hjoined
    · rw [hlines]
      have hrest' := sublist_of_cons_blank hsolid rfl hall
      split
      · exact List.filter_sublist.append hrest'
      · next hinside =>
        cases a with
        | nil => exact absurd ((hstart (hempty.resolve_left (· rfl))).2 rfl) hinside
        | cons l a => exact List.filter_sublist.append hrest'

/-- **Removal and the lines of the user.** Every line that is not blank and that no span touches is
the end of a line of what is left, and these lines keep their order. They are whole lines of it if
every span keeps a line break. -/
theorem remove_lines (h : remove t f = .ok u) : ∃ ss, spans t f = .ok ss ∧
    Ends (untouched ss 0 (splitLines t)) (splitLines u) ∧
    ((∀ s ∈ ss, s.KeepsBreak t f.marker) →
      (untouched ss 0 (splitLines t)).Sublist (splitLines u)) := by
  rw [remove_eq] at h
  obtain ⟨ss, hss, rfl⟩ := exists_of_map_eq_ok h
  obtain ⟨found, hscan, rfl⟩ := exists_scan_of_spans hne hfeed hss
  have hstart : StartsLine t 0 := .inl rfl
  have hends := hscan.ends_untouchedFrom hne hfeed .start
  rw [untouchedFrom, if_pos hstart, List.drop_zero, List.drop_zero] at hends
  refine ⟨_, hss, hends, fun hkeeps => ?_⟩
  have hsub := hscan.untouchedFrom_sublist hne hfeed .start fun p hp =>
    hkeeps p.2 (List.mem_map_of_mem hp)
  rwa [untouchedFrom, if_pos hstart, if_pos hstart, List.drop_zero, List.drop_zero] at hsub

end Removal

/-- A text with one fragment behind a letter and one on lines of its own. -/
def spacedText : Text :=
  "a // b\nz 'w'\n\nc\n    // b\n    z 'w'\n\nd\n".toText

/-- Where a blank line follows, the next line stays whole. -/
theorem remove_lines_spacedText : Plan.carried.marker ≠ [] ∧ .char '\n' ∉ Plan.carried.marker ∧
    remove spacedText Plan.carried = .ok "a \nc\nd\n".toText ∧
    (∀ s ∈ [Span.mk 2 13 1, ⟨16, 35, 1⟩], s.KeepsBreak spacedText Plan.carried.marker) ∧
    untouched [⟨2, 13, 1⟩, ⟨16, 35, 1⟩] 0 (splitLines spacedText) = ["c".toText, "d".toText] ∧
    (untouched [⟨2, 13, 1⟩, ⟨16, 35, 1⟩] 0 (splitLines spacedText)).Sublist
      (splitLines "a \nc\nd\n".toText) := by
  have hspans : spans spacedText Plan.carried = .ok [⟨2, 13, 1⟩, ⟨16, 35, 1⟩] := by
    unfold Plan.carried spacedText
    repeat rw [String.toText_ofList]
    exact eq_ok_of_toOption (by decide)
  have hremove : remove spacedText Plan.carried = .ok "a \nc\nd\n".toText := by
    unfold Plan.carried spacedText
    repeat rw [String.toText_ofList]
    exact eq_ok_of_toOption (by decide)
  have hne : Plan.carried.marker ≠ [] := by decide
  have hfeed : .char '\n' ∉ Plan.carried.marker := by decide
  have hkeeps : ∀ s ∈ [Span.mk 2 13 1, ⟨16, 35, 1⟩],
      s.KeepsBreak spacedText Plan.carried.marker := by
    unfold Plan.carried spacedText
    repeat rw [String.toText_ofList]
    decide
  obtain ⟨ss, hss, -, hsub⟩ := remove_lines hne hfeed hremove
  obtain rfl := Except.ok.inj (hss.symm.trans hspans)
  refine ⟨hne, hfeed, hremove, hkeeps, ?_, hsub hkeeps⟩
  unfold spacedText
  repeat rw [String.toText_ofList]
  decide

/-- A fragment of one declaration line. -/
def coreFragment : Fragment where
  marker := "// m".toText
  template := "implementation 'x:core:$core'".toText
  anchor := .endOfFile

/-- A text in which the marker is in a comment, with a declaration right below the fragment. -/
def commentedText : Text :=
  "// see // m\nimplementation 'x:core:1.0'\nimplementation 'a:b:2'\n".toText

/-- A line that no span touches becomes part of a comment, where the line feed before it goes with a
span that started behind other text. -/
theorem remove_joins_lines : coreFragment.marker ≠ [] ∧ .char '\n' ∉ coreFragment.marker ∧
    spans commentedText coreFragment = .ok [⟨7, 40, 1⟩] ∧
    untouched [⟨7, 40, 1⟩] 0 (splitLines commentedText) = ["implementation 'a:b:2'".toText] ∧
    remove commentedText coreFragment = .ok "// see implementation 'a:b:2'\n".toText ∧
    "implementation 'a:b:2'".toText ∉ splitLines "// see implementation 'a:b:2'\n".toText := by
  unfold coreFragment commentedText
  repeat rw [String.toText_ofList]
  exact ⟨by decide, by decide, eq_ok_of_toOption (by decide),
    by decide, eq_ok_of_toOption (by decide), by decide⟩

end Graft
