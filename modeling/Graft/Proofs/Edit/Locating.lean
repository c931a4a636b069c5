import Graft.Proofs.Brace.Reading
import Graft.Proofs.Edit.Spans
import Graft.Proofs.Edit.Standing
import Graft.Proofs.Fragment.Filling
import Graft.Proofs.Text.Occurrences
import Mathlib.Data.List.Forall2
import Mathlib.Data.List.TakeWhile

/-!
# Finding a fragment that is there

What stands below the marker of a fragment, as it is put in, is lines that fit the declaration lines
of the template one by one, or such lines and the block that the fragment introduces (`Laid`). The
span of such a fragment is found and goes to the end of it (`Laid.exists_span`), so that every part
of the fragment is found in the span.

> `missingTexts_eq_nil`: nothing is missing from a span that holds all that is required.
-/

namespace Graft

variable {t u v w x z line : Text} {c : CodePoint} {f : Fragment} {s : Span}

namespace Text

/-- What lies between two places is found in what is cut out around them. -/
theorem infix_slice {i j : Nat} (hi : i ≤ x.length) (hj : x.length + w.length ≤ j) :
    w <:+: slice (x ++ (w ++ z)) i j := by
  have htake : (x ++ (w ++ z)).take j = x ++ (w ++ z.take (j - x.length - w.length)) := by
    rw [List.take_append, List.take_append, List.take_of_length_le (by omega),
      List.take_of_length_le (i := j - x.length) (by omega)]
  rw [slice, htake, List.drop_append_of_le_length hi]
  exact ⟨x.drop i, z.take (j - x.length - w.length), by simp⟩

theorem lineEnd_append (hu : .char '\n' ∉ u) (hz : z = [] ∨ ∃ r, z = .char '\n' :: r) (x : Text) :
    lineEnd (x ++ (u ++ z)) x.length = (x ++ u).length := by
  have hall : ∀ c ∈ u, (c ≠ .char '\n' : Bool) = true := by
    intro c hc
    rw [decide_eq_true_eq]
    rintro rfl
    exact hu hc
  have hnone : z.takeWhile (· ≠ .char '\n') = [] := by
    rcases hz with rfl | ⟨r, rfl⟩
    · rfl
    · exact List.takeWhile_cons_of_neg (by simp)
  rw [lineEnd, List.drop_left, List.takeWhile_append_of_pos hall, hnone, List.append_nil,
    List.length_append]

theorem splitLines_of_not_mem (hu : .char '\n' ∉ u) : splitLines u = [u] := by
  cases h : splitLines u with
  | nil => exact absurd h (splitLines_ne_nil u)
  | cons l ls =>
    obtain ⟨-, ⟨rfl, rfl⟩ | ⟨rest, rfl, -⟩⟩ := splitLines_eq_cons h
    · rfl
    · simp at hu

theorem splitLines_append_left {l : Text} {ls : List Text} (hu : .char '\n' ∉ u)
    (h : splitLines t = l :: ls) : splitLines (u ++ t) = (u ++ l) :: ls := by
  obtain ⟨hl, ⟨rfl, rfl⟩ | ⟨rest, rfl, rfl⟩⟩ := splitLines_eq_cons h
  · exact splitLines_of_not_mem (by simp [hu, hl])
  · rw [← List.append_assoc, splitLines_append (by simp [hu, hl])]

/-- The first character of a text is on its first line, unless it is a line feed. -/
theorem splitLines_eq_cons_of_ne (hc : c ≠ .char '\n') (r : Text) :
    ∃ l ls, splitLines (c :: r) = l :: ls ∧ c ∈ l := by
  cases h : splitLines (c :: r) with
  | nil => exact absurd h (splitLines_ne_nil _)
  | cons l ls =>
    refine ⟨l, ls, rfl, ?_⟩
    cases l with
    | nil =>
      obtain ⟨-, ⟨-, hl⟩ | ⟨rest, hl, -⟩⟩ := splitLines_eq_cons h
      · cases hl
      · exact absurd (List.cons.inj hl).1 hc
    | cons d l =>
      obtain ⟨-, ⟨-, hl⟩ | ⟨rest, hl, -⟩⟩ := splitLines_eq_cons h
      · rw [← hl]
        exact List.mem_cons_self
      · rw [(List.cons.inj hl).1]
        exact List.mem_cons_self

/-- A line and the lines below it, each behind a line feed, are cut apart again, whatever lines
follow. -/
theorem splitLines_flatMap {l : Text} {ls : List Text} (h : ∀ m ∈ l :: ls, .char '\n' ∉ m)
    (hz : z = [] ∨ ∃ r, z = .char '\n' :: r) :
    ∃ more, splitLines (l ++ (ls.flatMap (.char '\n' :: ·) ++ z)) = l :: ls ++ more := by
  induction ls generalizing l with
  | nil =>
    have hl := h l List.mem_cons_self
    rcases hz with rfl | ⟨r, rfl⟩
    · exact ⟨[], by simpa using splitLines_of_not_mem hl⟩
    · exact ⟨splitLines r, splitLines_append hl r⟩
  | cons m ms ih =>
    obtain ⟨hl, hms⟩ := List.forall_mem_cons.1 h
    obtain ⟨more, hmore⟩ := ih hms
    refine ⟨more, ?_⟩
    rw [List.flatMap_cons, List.append_assoc]
    show splitLines (l ++ .char '\n' :: (m ++ (ms.flatMap (.char '\n' :: ·) ++ z))) = _
    rw [splitLines_append hl, hmore]
    rfl

theorem flatMap_cons_lineFeed {ls : List Text} (hne : ls ≠ []) :
    ls.flatMap (.char '\n' :: ·) = .char '\n' :: join [.char '\n'] ls := by
  fun_induction join [.char '\n'] ls with
  | case1 => exact absurd rfl hne
  | case2 l => simp
  | case3 l ls hls ih =>
    rw [List.flatMap_cons, ih fun hnil => hls hnil]
    simp

theorem flatMap_cons_splitLines (t : Text) :
    (splitLines t).flatMap (.char '\n' :: ·) = .char '\n' :: t := by
  rw [flatMap_cons_lineFeed (splitLines_ne_nil t), join_splitLines]

theorem join_cons_lineFeed (l : Text) (ls : List Text) :
    join [.char '\n'] (l :: ls) = l ++ ls.flatMap (.char '\n' :: ·) := by
  cases ls with
  | nil => exact (List.append_nil l).symm
  | cons m ms =>
    rw [join_cons (List.cons_ne_nil m ms), flatMap_cons_lineFeed (List.cons_ne_nil m ms)]
    rfl

/-- What stands behind lines belongs to the last of them. -/
theorem exists_flatMap_append {α : Type} {R : α → Text → Prop} {as : List α} {ls : List Text}
    (hR : ∀ a l, R a l → R a (l ++ u)) (h : List.Forall₂ R as ls) (hne : ls ≠ [])
    (hls : ∀ l ∈ ls, .char '\n' ∉ l) (hu : .char '\n' ∉ u) :
    ∃ ls', List.Forall₂ R as ls' ∧ ls' ≠ [] ∧ (∀ l ∈ ls', .char '\n' ∉ l) ∧
      ls'.flatMap (.char '\n' :: ·) = ls.flatMap (.char '\n' :: ·) ++ u := by
  induction h with
  | nil => exact absurd rfl hne
  | @cons a l as ls hl hrest ih =>
    obtain ⟨hfirst, hothers⟩ := List.forall_mem_cons.1 hls
    cases ls with
    | nil =>
      cases hrest
      refine ⟨[l ++ u], .cons (hR a l hl) .nil, by simp, ?_, by simp⟩
      intro l' hl'
      rw [List.mem_singleton.1 hl', List.mem_append, not_or]
      exact ⟨hfirst, hu⟩
    | cons m ms =>
      obtain ⟨ls', hls', hne', hnot, heq⟩ := ih (by simp) hothers
      refine ⟨l :: ls', .cons hl hls', by simp, List.forall_mem_cons.2 ⟨hfirst, hnot⟩, ?_⟩
      rw [List.flatMap_cons, heq, ← List.append_assoc, ← List.flatMap_cons]

end Text

/-! ## Lines that fit -/

namespace Declaration

variable {p q : Text} {ps : List Text}

/-- Any characters that may stand in a value are passed over. -/
theorem mem_gapRests (hv : v.all isValueChar = true) (rest : Text) :
    rest ∈ gapRests (v ++ rest) := by
  induction v with
  | nil =>
    cases rest with
    | nil => exact List.mem_cons_self
    | cons c r => exact List.mem_cons_self
  | cons c r ih =>
    obtain ⟨hc, hr⟩ := Bool.and_eq_true_iff.1 hv
    rw [List.cons_append, gapRests, if_pos hc]
    exact List.mem_cons_of_mem _ (ih hr)

theorem fitsParts_cons (hv : v.all isValueChar = true) (h : fitsParts (q :: ps) u = true) :
    fitsParts (p :: q :: ps) (p ++ (v ++ u)) = true := by
  rw [fitsParts, List.drop_left, Bool.and_eq_true_iff, List.any_eq_true]
  · exact ⟨List.isPrefixOf_iff_prefix.2 (List.prefix_append _ _), u, mem_gapRests hv u, h⟩
  · intro hnil
    cases hnil

theorem fitsParts_last (hu : u.all Text.isIndent = true) : fitsParts [p] (p ++ u) = true := by
  rw [fitsParts, List.drop_left, Bool.and_eq_true_iff]
  exact ⟨List.isPrefixOf_iff_prefix.2 (List.prefix_append _ _), hu⟩

/-- Indentation before a line does not matter. -/
theorem fits_indent {pattern : Pattern} (hx : x.all Text.isIndent = true)
    (h : fits pattern line = true) : fits pattern (x ++ line) = true := by
  unfold fits dropIndent at h ⊢
  rwa [List.dropWhile_append_of_pos (List.all_eq_true.1 hx)]

theorem mem_gapRests_append {rest : Text} (h : rest ∈ gapRests u) (x : Text) :
    rest ++ x ∈ gapRests (u ++ x) := by
  induction u with
  | nil =>
    rw [List.mem_singleton.1 h]
    exact mem_gapRests (v := []) rfl x
  | cons c r ih =>
    rw [gapRests, List.mem_cons] at h
    rw [List.cons_append, gapRests, List.mem_cons]
    rcases h with rfl | h
    · exact .inl rfl
    · split at h
      · next hc =>
        rw [if_pos hc]
        exact .inr (ih h)
      · cases h

theorem fitsParts_append (hx : x.all Text.isIndent = true) (h : fitsParts ps u = true) :
    fitsParts ps (u ++ x) = true := by
  induction ps generalizing u with
  | nil =>
    rw [fitsParts] at h ⊢
    rw [List.all_append, h, hx]
    rfl
  | cons p ps ih =>
    cases ps with
    | nil =>
      obtain ⟨hfront, hrest⟩ := Bool.and_eq_true_iff.1 h
      obtain ⟨w, rfl⟩ := List.isPrefixOf_iff_prefix.1 hfront
      rw [List.drop_left] at hrest
      rw [List.append_assoc]
      apply fitsParts_last
      rw [List.all_append, hrest, hx]
      rfl
    | cons q ps =>
      obtain ⟨hfront, hrest⟩ := Bool.and_eq_true_iff.1 h
      obtain ⟨w, rfl⟩ := List.isPrefixOf_iff_prefix.1 hfront
      rw [List.drop_left] at hrest
      obtain ⟨rest, hmem, hfits⟩ := List.any_eq_true.1 hrest
      rw [List.append_assoc]
      refine Bool.and_eq_true_iff.2 ⟨List.isPrefixOf_iff_prefix.2 (List.prefix_append _ _), ?_⟩
      rw [List.drop_left, List.any_eq_true]
      exact ⟨_, mem_gapRests_append hmem x, ih hfits⟩

/-- Indentation behind a line does not matter. -/
theorem fits_append (hx : x.all Text.isIndent = true) (h : fits ps line = true) :
    fits ps (line ++ x) = true := by
  unfold fits dropIndent at h ⊢
  rw [List.dropWhile_append]
  split
  · next hnil =>
    rw [List.isEmpty_iff.1 hnil] at h
    rwa [List.dropWhile_eq_nil_iff.2 (List.all_eq_true.1 hx)]
  · exact fitsParts_append hx h

end Declaration

/-! ## Headers -/

/-- The name of a block between indentation. -/
def IsHeader (name head : Text) : Prop :=
  ∃ margin gap : Text, head = margin ++ (name ++ gap) ∧ margin.all Text.isIndent = true ∧
    gap.all Text.isIndent = true

section Headers

variable {name head head' r r' : Text} {i : Nat}

theorem Text.takeWhile_isIndent (hx : x.all isIndent = true) (hc : isIndent c = false) (r : Text) :
    (x ++ c :: r).takeWhile isIndent = x := by
  rw [List.takeWhile_append_of_pos (List.all_eq_true.1 hx),
    List.takeWhile_cons_of_neg (by simp [hc]), List.append_nil]

/-- Before one brace there is one header of a name at most, whatever indentation the name has. -/
theorem IsHeader.length_eq (h : IsHeader name head) (h' : IsHeader name head')
    (heq : head ++ .char '{' :: r = head' ++ .char '{' :: r') : head.length = head'.length := by
  obtain ⟨margin, gap, rfl, hmargin, hgap⟩ := h
  obtain ⟨margin', gap', rfl, hmargin', hgap'⟩ := h'
  have hbrace : Text.isIndent (.char '{') = false := by decide
  by_cases hname : name.all Text.isIndent = true
  · -- then either of them is all the indentation there is
    have hall : ∀ m g : Text, m.all Text.isIndent = true → g.all Text.isIndent = true →
        (m ++ (name ++ g)).all Text.isIndent = true := by
      intro m g hm hg
      rw [List.all_append, List.all_append, hm, hname, hg]
      rfl
    have htake := congrArg (List.takeWhile Text.isIndent) heq
    rw [Text.takeWhile_isIndent (hall _ _ hmargin hgap) hbrace,
      Text.takeWhile_isIndent (hall _ _ hmargin' hgap') hbrace] at htake
    rw [htake]
  · -- otherwise the first other character of the name is where the indentation ends
    obtain ⟨p, d, q, rfl, hp, hd⟩ : ∃ p d q, name = p ++ d :: q ∧ p.all Text.isIndent = true ∧
        Text.isIndent d = false := by
      refine ⟨name.takeWhile Text.isIndent, ?_⟩
      have hsplit := List.takeWhile_append_dropWhile (p := Text.isIndent) (l := name)
      have hhead := List.head?_dropWhile_not (p := Text.isIndent) (l := name)
      cases hdrop : name.dropWhile Text.isIndent with
      | nil => exact absurd (List.all_eq_true.2 (List.dropWhile_eq_nil_iff.1 hdrop)) hname
      | cons d q =>
        rw [hdrop] at hsplit hhead
        exact ⟨d, q, hsplit.symm, List.all_takeWhile, by simpa using hhead⟩
    have hfront : ∀ m g s : Text, m.all Text.isIndent = true →
        (m ++ (p ++ d :: q ++ g) ++ s).takeWhile Text.isIndent = m ++ p := by
      intro m g s hm
      have hsplit : m ++ (p ++ d :: q ++ g) ++ s = (m ++ p) ++ d :: (q ++ g ++ s) := by simp
      rw [hsplit, Text.takeWhile_isIndent (by rw [List.all_append, hm, hp]; rfl) hd]
    have htake := congrArg (List.takeWhile Text.isIndent) heq
    rw [hfront _ _ _ hmargin, hfront _ _ _ hmargin'] at htake
    obtain rfl : margin = margin' := List.append_cancel_right htake
    have hgaps : gap ++ .char '{' :: r = gap' ++ .char '{' :: r' := by simpa using heq
    have hgaps := congrArg (List.takeWhile Text.isIndent) hgaps
    rw [Text.takeWhile_isIndent hgap hbrace, Text.takeWhile_isIndent hgap' hbrace] at hgaps
    rw [hgaps]

namespace Span

/-- Where a brace is found, a header precedes it. -/
theorem exists_of_headerBrace? (h : headerBrace? name t = some i) :
    ∃ head r, IsHeader name head ∧ t = head ++ .char '{' :: r ∧ i = head.length := by
  induction t generalizing i with
  | nil => cases h
  | cons c t ih =>
    have hat : braceAfterName? name (c :: t) = some i →
        ∃ head r, IsHeader name head ∧ c :: t = head ++ .char '{' :: r ∧ i = head.length := by
      intro hbrace
      unfold braceAfterName? at hbrace
      split at hbrace
      · next hprefix =>
        obtain ⟨rest, hrest⟩ := List.isPrefixOf_iff_prefix.1 hprefix
        rw [← hrest, List.drop_left] at hbrace
        dsimp only at hbrace
        have hsplit := List.takeWhile_append_dropWhile (p := Text.isIndent) (l := rest)
        generalize hgap : rest.takeWhile Text.isIndent = gap at hbrace hsplit
        have hindent : gap.all Text.isIndent = true := hgap ▸ List.all_takeWhile
        split at hbrace
        · next hopening =>
          cases hbrace
          have hget := eq_of_beq hopening
          rw [← hsplit, List.getElem?_append_right (Nat.le_refl _), Nat.sub_self,
            ← List.head?_eq_getElem?] at hget
          obtain ⟨r, hr⟩ := List.head?_eq_some_iff.1 hget
          refine ⟨name ++ gap, r, ⟨[], gap, rfl, rfl, hindent⟩, ?_, by simp⟩
          rw [← hrest, ← hsplit, hr, List.append_assoc]
        · cases hbrace
      · cases hbrace
    rw [headerBrace?] at h
    split at h
    · next j hj =>
      cases h
      split at hj
      · next hc =>
        obtain ⟨head, r, ⟨margin, gap, rfl, hmargin, hgap⟩, rfl, rfl⟩ := ih hj
        exact ⟨c :: (margin ++ (name ++ gap)), r,
          ⟨c :: margin, gap, rfl, by rw [List.all_cons, hc, hmargin]; rfl, hgap⟩, rfl, rfl⟩
      · cases hj
    · exact hat h

/-- **A header is recognised by its name**, and its brace found. -/
theorem headerBrace?_eq (h : IsHeader name head) (r : Text) :
    headerBrace? name (head ++ .char '{' :: r) = some head.length := by
  have hsome : headerBrace? name (head ++ .char '{' :: r) ≠ none := by
    obtain ⟨margin, gap, rfl, hmargin, hgap⟩ := h
    induction margin with
    | nil =>
      have hat : braceAfterName? name (name ++ (gap ++ .char '{' :: r)) =
          some (name.length + gap.length) := by
        have hprefix := List.isPrefixOf_iff_prefix.2
          (List.prefix_append name (gap ++ .char '{' :: r))
        rw [braceAfterName?, if_pos hprefix, List.drop_left]
        dsimp only
        rw [Text.takeWhile_isIndent hgap (by decide),
          List.getElem?_append_right (Nat.le_refl _), Nat.sub_self, if_pos (by simp)]
      rw [List.nil_append, List.append_assoc]
      cases ht : name ++ (gap ++ .char '{' :: r) with
      | nil => simp at ht
      | cons c t =>
        rw [headerBrace?, ← ht, hat]
        split <;> simp
    | cons c m ih =>
      obtain ⟨hc, hm⟩ := Bool.and_eq_true_iff.1 hmargin
      obtain ⟨i, hi⟩ := Option.ne_none_iff_exists'.1 (ih hm)
      rw [List.cons_append, List.cons_append, headerBrace?, if_pos hc, hi]
      simp
  obtain ⟨i, hi⟩ := Option.ne_none_iff_exists'.1 hsome
  obtain ⟨head', r', h', heq, rfl⟩ := exists_of_headerBrace? hi
  rw [hi, h.length_eq h' heq]

end Span

end Headers

/-! ## Spans of what is laid -/

/-- What may stand directly behind the marker of a fragment, as its span takes it: lines that fit
the patterns of the fragment one by one, and the block that the fragment introduces, if it introduces
one. -/
inductive Laid (f : Fragment) : Text → Prop
  | flat {lines : List Text} (hblock : f.block = none) (hne : lines ≠ [])
      (hfits : List.Forall₂ (fun p l => Declaration.fits p l = true) f.patterns lines)
      (hlines : ∀ l ∈ lines, .char '\n' ∉ l) : Laid f (lines.flatMap (.char '\n' :: ·))
  | block {lines : List Text} {c : CodePoint} {name head inner : Text} {bs : List Brace}
      (hblock : f.block = some (c :: name)) (hhead : IsHeader (c :: name) head)
      (hfeed : .char '\n' ∉ head)
      (hfits : List.Forall₂ (fun p l => Declaration.fits p l = true) f.patterns lines)
      (hlines : ∀ l ∈ lines, .char '\n' ∉ l)
      (hinner : ScanState.start.Reads inner bs ScanState.start) (hlevel : level 0 bs = some 0) :
      Laid f (lines.flatMap (.char '\n' :: ·) ++
          .char '\n' :: (head ++ .char '{' :: (inner ++ [.char '}'])))

namespace Span

/-- Lines that fit the patterns one by one are taken, all of them and no more. -/
theorem takeDeclarations_append {patterns : List Declaration.Pattern} {lines : List Text}
    (h : List.Forall₂ (fun p l => Declaration.fits p l = true) patterns lines) (stop : Nat)
    (below : List Text) : takeDeclarations patterns stop (lines ++ below) =
      (stop + (lines.flatMap (.char '\n' :: ·)).length, lines.length) := by
  induction h generalizing stop with
  | nil =>
    cases below with
    | nil => rfl
    | cons l below => rfl
  | @cons p l ps ls hfits _ ih =>
    have hfind : (p :: ps).find? (Declaration.fits · l) = some p :=
      List.find?_cons_of_pos hfits
    have herase : (p :: ps).eraseP (Declaration.fits · l) = ps := List.eraseP_cons_of_pos hfits
    rw [List.cons_append, takeDeclarations, hfind]
    dsimp only
    rw [herase, ih, List.flatMap_cons, List.length_append, List.length_cons, List.length_cons,
      Prod.mk.injEq]
    exact ⟨by omega, rfl⟩

theorem linesBelow_append (x u : Text) :
    linesBelow (x ++ .char '\n' :: u) x.length = Text.splitLines u := by
  rw [linesBelow, if_pos (by simp), ← List.drop_drop, List.drop_left]
  rfl

/-- The lines below a place, each behind a line feed, are cut apart again. -/
theorem linesBelow_flatMap {lines : List Text} (h : ∀ l ∈ lines, .char '\n' ∉ l)
    (hz : z = [] ∨ ∃ r, z = .char '\n' :: r) (x : Text) :
    ∃ more, linesBelow (x ++ (lines.flatMap (.char '\n' :: ·) ++ z)) x.length = lines ++ more := by
  cases lines with
  | nil => exact ⟨_, rfl⟩
  | cons l ls =>
    rw [List.flatMap_cons, List.append_assoc, List.cons_append, linesBelow_append]
    exact Text.splitLines_flatMap h hz

/-- A line with a brace in it is not passed over as blank. -/
theorem skipBlankLines_eq {head : Text} (hfeed : .char '\n' ∉ head) (r : Text) (i : Nat) :
    skipBlankLines i (Text.splitLines (head ++ .char '{' :: r)) = i := by
  obtain ⟨l, ls, h, hmem⟩ := Text.splitLines_eq_cons_of_ne (c := .char '{') (by decide) r
  have hblank : Text.allBlank (head ++ l) = false := by
    rw [Text.allBlank, List.all_eq_false]
    exact ⟨.char '{', List.mem_append_right _ hmem, by decide⟩
  rw [Text.splitLines_append_left hfeed h, skipBlankLines, hblank, Bool.false_and,
    if_neg (by simp)]

/-- A span starts at its marker or before it. -/
theorem start_le {i : Nat} (h : ofMarker t f i = .ok s) (hi : i < t.length) : s.start ≤ i := by
  obtain ⟨hstart, -, -⟩ := ofMarker_eq_ok h hi
  have := Text.lineStart_le t i
  rw [hstart]
  split
  · exact this
  · exact Nat.le_refl i

/-- The index behind the line feed at an index, if there is one. -/
def pastLineFeed (t : Text) (i : Nat) : Nat :=
  if t[i]? == some (.char '\n') then i + 1 else i

theorem le_pastLineFeed (t : Text) (i : Nat) : i ≤ pastLineFeed t i := by
  unfold pastLineFeed
  split <;> omega

theorem drop_pastLineFeed (x z : Text) :
    (x ++ z).drop (pastLineFeed (x ++ z) x.length) = Declaration.dropOne (.char '\n') z := by
  rw [pastLineFeed, List.getElem?_append_right (Nat.le_refl _), Nat.sub_self,
    ← List.head?_eq_getElem?]
  cases z with
  | nil => simp [Declaration.dropOne]
  | cons c r =>
    by_cases hc : c = .char '\n'
    · rw [hc, if_pos (by simp), ← List.drop_drop, List.drop_left]
      rfl
    · rw [if_neg (by simpa using hc), List.drop_left, Declaration.dropOne, if_neg hc]

/-- The lines that are taken below the marker. -/
theorem takeDeclarations_below {lines : List Text} (hmarker : .char '\n' ∉ f.marker)
    (hfits : List.Forall₂ (fun p l => Declaration.fits p l = true) f.patterns lines)
    (hlines : ∀ l ∈ lines, .char '\n' ∉ l) (hz : z = [] ∨ ∃ r, z = .char '\n' :: r)
    (ht : t = x ++ (f.marker ++ (lines.flatMap (.char '\n' :: ·) ++ z))) :
    takeDeclarations f.patterns (Text.lineEnd t x.length) (linesBelow t (Text.lineEnd t x.length)) =
      ((x ++ (f.marker ++ lines.flatMap (.char '\n' :: ·))).length, lines.length) := by
  have hbelow : lines.flatMap (.char '\n' :: ·) ++ z = [] ∨
      ∃ r, lines.flatMap (.char '\n' :: ·) ++ z = .char '\n' :: r := by
    cases lines with
    | nil => exact hz
    | cons l ls => exact .inr ⟨_, by rw [List.flatMap_cons, List.append_assoc, List.cons_append]⟩
  have hend : Text.lineEnd t x.length = (x ++ f.marker).length := by
    rw [ht, Text.lineEnd_append hmarker hbelow]
  obtain ⟨more, hmore⟩ := linesBelow_flatMap hlines hz (x ++ f.marker)
  rw [List.append_assoc, ← ht] at hmore
  rw [hend, hmore, takeDeclarations_append hfits, ← List.length_append, List.append_assoc]

/-- Without a block, the span goes to the end of the lines that fit. -/
theorem exists_flatSpan {lines : List Text} (hmarker : .char '\n' ∉ f.marker)
    (hblock : f.block = none) (hne : lines ≠ [])
    (hfits : List.Forall₂ (fun p l => Declaration.fits p l = true) f.patterns lines)
    (hlines : ∀ l ∈ lines, .char '\n' ∉ l) (hz : z = [] ∨ ∃ r, z = .char '\n' :: r)
    (ht : t = x ++ (f.marker ++ (lines.flatMap (.char '\n' :: ·) ++ z))) :
    ∃ s, ofMarker t f x.length = .ok s ∧
      s.stop = pastLineFeed t (x ++ (f.marker ++ lines.flatMap (.char '\n' :: ·))).length := by
  have hnonzero : lines.length ≠ 0 := by simpa using hne
  unfold ofMarker
  dsimp only
  rw [takeDeclarations_below hmarker hfits hlines hz ht, hblock]
  dsimp only
  rw [if_neg hnonzero]
  exact ⟨_, rfl, rfl⟩

/-- With a block, the span goes to the end of the block that follows the lines that fit. -/
theorem exists_blockSpan {lines : List Text} {c : CodePoint} {name head inner : Text}
    {bs : List Brace} (hmarker : .char '\n' ∉ f.marker) (hblock : f.block = some (c :: name))
    (hhead : IsHeader (c :: name) head) (hfeed : .char '\n' ∉ head)
    (hfits : List.Forall₂ (fun p l => Declaration.fits p l = true) f.patterns lines)
    (hlines : ∀ l ∈ lines, .char '\n' ∉ l) (hinner : ScanState.start.Reads inner bs ScanState.start)
    (hlevel : level 0 bs = some 0)
    (ht : t = x ++ (f.marker ++ (lines.flatMap (.char '\n' :: ·) ++
      .char '\n' :: (head ++ .char '{' :: (inner ++ .char '}' :: z))))) :
    ∃ s, ofMarker t f x.length = .ok s ∧ s.stop = pastLineFeed t
      (x ++ (f.marker ++ (lines.flatMap (.char '\n' :: ·) ++
        .char '\n' :: (head ++ .char '{' :: (inner ++ [.char '}'])))) : Text).length := by
  have htaken := takeDeclarations_below hmarker hfits hlines (.inr ⟨_, rfl⟩) ht
  have hend : (x ++ (f.marker ++ (lines.flatMap (.char '\n' :: ·) ++
      .char '\n' :: (head ++ .char '{' :: (inner ++ [.char '}'])))) : Text).length =
        (x ++ (f.marker ++ lines.flatMap (.char '\n' :: ·))).length + 1 + head.length + 1 +
          inner.length + 1 := by
    simp
    omega
  rw [← List.append_assoc f.marker, ← List.append_assoc] at ht
  rw [hend]
  generalize x ++ (f.marker ++ lines.flatMap (.char '\n' :: ·)) = y at htaken ht
  -- the header is on the first line behind those lines
  have hskip : skipBlankLines (y.length + 1) (linesBelow t y.length) = y.length + 1 := by
    rw [ht, linesBelow_append, skipBlankLines_eq hfeed]
  have hhere : t.drop (y.length + 1) = head ++ .char '{' :: (inner ++ .char '}' :: z) := by
    rw [ht, ← List.drop_drop, List.drop_left]
    rfl
  have hbrace : t.drop (y.length + 1 + head.length) = .char '{' :: (inner ++ .char '}' :: z) := by
    rw [← List.drop_drop, hhere, List.drop_left]
  have hclose := closeOf_eq_ok hbrace hinner hlevel
  rw [Int.natCast_add] at hclose
  have hstop : ∀ line, blockStop t f line y.length (c :: name) =
      .ok (y.length + 1 + head.length + 1 + inner.length + 1) := by
    intro line
    rw [blockStop, hskip, hhere, headerBrace?_eq hhead]
    dsimp only
    rw [hclose]
  unfold ofMarker
  dsimp only
  rw [htaken, hblock]
  dsimp only
  rw [hstop]
  exact ⟨_, rfl, rfl⟩

end Span

open Graft.Span in
/-- **The span of a fragment that is laid goes to its end.** It takes the indentation that follows on
the last line, if this is a declaration line, and a line feed. -/
theorem Laid.exists_span (h : Laid f u) (hmarker : .char '\n' ∉ f.marker)
    (hz : Text.OpensIndented z)
    (x : Text) : ∃ s sp rest, ofMarker (x ++ (f.marker ++ (u ++ z))) f x.length = .ok s ∧
      z = sp ++ rest ∧ sp.all Text.isIndent = true ∧
      (x ++ (f.marker ++ (u ++ z))).drop s.stop = Declaration.dropOne (.char '\n') rest ∧
      x.length + (f.marker ++ u).length ≤ s.stop := by
  rw [← List.length_append]
  generalize ht : x ++ (f.marker ++ (u ++ z)) = t
  replace ht := ht.symm
  cases h with
  | @flat lines hblock hne hfits hlines =>
    obtain ⟨sp, rest, rfl, hsp, hrest⟩ := hz.exists_eq_append
    -- indentation that is left behind the last line becomes part of it
    obtain ⟨lines', hfits', hne', hlines', hjoin⟩ := Text.exists_flatMap_append
      (fun p l => Declaration.fits_append hsp) hfits hne hlines
      (Text.not_mem_of_isIndent (by decide) hsp)
    rw [← List.append_assoc _ sp, ← hjoin] at ht
    obtain ⟨s, hs, hstop⟩ := exists_flatSpan hmarker hblock hne' hfits' hlines' hrest ht
    rw [← List.append_assoc f.marker, ← List.append_assoc] at ht
    have hdrop := drop_pastLineFeed (x ++ (f.marker ++ lines'.flatMap (.char '\n' :: ·))) rest
    have hle := le_pastLineFeed t (x ++ (f.marker ++ lines'.flatMap (.char '\n' :: ·))).length
    rw [← ht, ← hstop] at hdrop
    rw [← hstop, hjoin] at hle
    refine ⟨s, sp, rest, hs, rfl, hsp, hdrop, ?_⟩
    simp only [List.length_append] at hle ⊢
    omega
  | @block lines c name head inner bs hblock hhead hfeed hfits hlines hinner hlevel =>
    obtain ⟨s, hs, hstop⟩ := exists_blockSpan hmarker hblock hhead hfeed hfits hlines hinner hlevel
      (t := t) (x := x) (z := z) (by rw [ht]; simp)
    rw [← List.append_assoc f.marker, ← List.append_assoc] at ht
    have hdrop := drop_pastLineFeed (x ++ (f.marker ++ (lines.flatMap (.char '\n' :: ·) ++
      .char '\n' :: (head ++ .char '{' :: (inner ++ [.char '}']))))) z
    rw [← ht, ← hstop] at hdrop
    exact ⟨s, [], z, hs, rfl, rfl, hdrop, by rw [hstop]; exact le_pastLineFeed t _⟩

/-- A pattern that is found, and not again behind that, occurs once. -/
theorem Text.count_eq_one {m y : Text} (hm : m ≠ [])
    (hx : Text.search m (x ++ (m ++ y)) = some x.length) (hy : Text.search m y = none) :
    Text.count m (x ++ (m ++ y)) = 1 := by
  have hdrop : (x ++ (m ++ y)).drop (x.length + m.length) = y := by
    rw [← List.drop_drop, List.drop_left, List.drop_left]
  rw [Text.count_of_search hm hx, hdrop,
    (Text.count_eq_zero_iff hm y).2 (Text.contains_eq_false_iff.2 hy)]

/-! ## What is not missing -/

/-- The span that is found first is that of the first occurrence of the marker. -/
theorem spanFrom_eq {i : Nat} (hsearch : Text.search f.marker t = some i)
    (hs : Span.ofMarker t f i = .ok s) : spanFrom t f 0 = .ok (some s) := by
  have hfrom : Text.searchFrom f.marker t 0 = some i := by
    rw [Text.searchFrom, if_pos (Nat.zero_le _), List.drop_zero, hsearch]
    rfl
  rw [spanFrom, hfrom]
  dsimp only
  rw [hs]
  rfl

/-- Nothing is missing from a span that holds all that is required. -/
theorem missingTexts_eq_nil {versions : VersionSet} {required : List Text}
    (hspan : spanFrom t f 0 = .ok (some s)) (hrequired : f.requiredTexts versions = .ok required)
    (hall : ∀ text ∈ required, text <:+: s.text t) : missingTexts t f versions = .ok [] := by
  have hnone : required.filter (!(s.text t).contains ·) = [] := by
    rw [List.filter_eq_nil_iff]
    intro text htext
    rw [Bool.not_eq_true', Bool.not_eq_false]
    exact Text.contains_iff.2 (hall text htext)
  rw [missingTexts, hrequired, hspan]
  show Except.ok (required.filter (!(s.text t).contains ·)) = _
  rw [hnone]

/-- Nothing is missing from a fragment of which all lines stand where its span takes them. -/
theorem Laid.missingTexts_eq_nil {versions : VersionSet} {body : Text} (h : Laid f u)
    (hmarker : .char '\n' ∉ f.marker) (hne : f.marker ≠ []) (hz : Text.OpensIndented z)
    (hsearch : Text.search f.marker (x ++ (f.marker ++ (u ++ z))) = some x.length)
    (hnone : f.required = []) (hbody : f.body versions = .ok body)
    (hlines : ∀ l ∈ Text.lines body, l <:+: u) :
    missingTexts (x ++ (f.marker ++ (u ++ z))) f versions = .ok [] := by
  obtain ⟨s, -, -, hs, -, -, -, hstop⟩ := h.exists_span hmarker hz x
  have hlt : x.length < (x ++ (f.marker ++ (u ++ z))).length := by
    have := List.length_pos_iff.2 hne
    simp only [List.length_append]
    omega
  have hstart := Span.start_le hs hlt
  obtain ⟨required, hrequired⟩ : ∃ required, f.requiredTexts versions = .ok required := by
    rw [Fragment.requiredTexts, hnone, hbody]
    exact ⟨_, rfl⟩
  refine Graft.missingTexts_eq_nil (spanFrom_eq hsearch hs) hrequired ?_
  intro text htext
  obtain ⟨l, hl, rfl⟩ := f.mem_requiredTexts hnone hbody hrequired htext
  have hin := ((Text.trim_infix l).trans (hlines l hl)).trans (List.suffix_append f.marker u).isInfix
  rw [← List.append_assoc f.marker]
  exact hin.trans (Text.infix_slice hstart hstop)

end Graft
