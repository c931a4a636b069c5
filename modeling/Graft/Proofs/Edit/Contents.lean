import Graft.Proofs.Edit.Undoing
import Graft.Proofs.Fragment.Matching

/-!
# What a span holds

A span is read part by part: blanks before the marker, the line of the marker, the lines below it
that match declaration lines of the template, each a different one, blank lines and the block that
the fragment introduces, if it introduces one, and a line feed (`Span.Contents`).

> `spanFrom_contents`: every span that is found has these contents, and no span is found for a
> fragment without a block where the line below the marker matches no declaration line.
-/

namespace Graft

open Text

variable {t u : Text} {f : Fragment} {s : Span} {i j k pos : Nat}

/-! ## Lines below a place -/

namespace Span

/-- Where a line ends, the rest of the text is the lines below, each behind its line feed. -/
theorem drop_eq_flatMap_linesBelow (h : t.drop i = [] ∨ (t.drop i).head? = some (.char '\n')) :
    t.drop i = (linesBelow t i).flatMap (.char '\n' :: ·) := by
  rw [linesBelow]
  rcases h with h | h
  · rw [h, if_neg (Nat.not_lt.2 (List.drop_eq_nil_iff.1 h))]
    rfl
  · obtain ⟨r, hr⟩ := List.head?_eq_some_iff.1 h
    have hlt : i < t.length := by
      have hlength := congrArg List.length hr
      rw [List.length_drop, List.length_cons] at hlength
      omega
    rw [if_pos hlt, ← List.drop_drop, hr]
    exact (flatMap_cons_splitLines r).symm

theorem not_mem_of_mem_linesBelow {line : Text} (h : line ∈ linesBelow t i) :
    .char '\n' ∉ line := by
  unfold linesBelow at h
  split at h
  · exact not_mem_of_mem_splitLines h
  · cases h

/-- The lines that are passed over are blank, and the first one that is not starts behind them. -/
theorem exists_skipBlankLines (i : Nat) (lines : List Text) : ∃ blanks more,
    lines = blanks ++ more ∧ (∀ l ∈ blanks, allBlank l = true) ∧ (lines ≠ [] → more ≠ []) ∧
      skipBlankLines i lines = i + (blanks.flatMap (.char '\n' :: ·)).length := by
  induction lines generalizing i with
  | nil => exact ⟨[], [], rfl, by simp, id, rfl⟩
  | cons line below ih =>
    rw [skipBlankLines]
    split
    · next hskip =>
      obtain ⟨hblank, hbelow⟩ := Bool.and_eq_true_iff.1 hskip
      obtain ⟨blanks, more, rfl, hblanks, hmore, heq⟩ := ih (i + line.length + 1)
      refine ⟨line :: blanks, more, rfl, List.forall_mem_cons.2 ⟨hblank, hblanks⟩, ?_, ?_⟩
      · exact fun _ => hmore (by simpa using hbelow)
      · rw [heq, List.flatMap_cons, List.length_append, List.length_cons]
        omega
    · exact ⟨[], line :: below, rfl, by simp, fun _ => by simp, rfl⟩

end Span

/-! ## The parts of a span -/

/-- What comes below the declaration lines in a span: nothing if the fragment introduces no block,
and otherwise blank lines, the header of the block and all through the partner of its brace. -/
inductive Span.Below (t : Text) (f : Fragment) (i : Nat) : Text → Prop
  | nothing (h : f.IsFlat) : Below t f i []
  | block {blanks : List Text} {c : CodePoint} {name head : Text} {brace close : Nat}
      (hblock : f.block = some (c :: name))
      (hblanks : ∀ l ∈ blanks, .char '\n' ∉ l ∧ allBlank l = true)
      (hhead : IsHeader (c :: name) head)
      (hbrace : brace = i + (blanks.flatMap (.char '\n' :: ·) ++ .char '\n' :: head).length)
      (hclose : closeOf t brace = .ok close) :
      Below t f i
        (blanks.flatMap (.char '\n' :: ·) ++ .char '\n' :: (head ++ slice t brace (close + 1)))

/-- A span of the marker at index `i`, part by part. -/
structure Span.Contents (t : Text) (f : Fragment) (i : Nat) (s : Span) (lead rest : Text)
    (lines heads : List Text) (below feed : Text) : Prop where
  /-- What stands before the marker on its line is in the span if it is blank. -/
  lead_eq : lead =
    if allBlank (slice t (lineStart t i) i) then slice t (lineStart t i) i else []
  start_eq : s.start + lead.length = i
  /-- The line of the marker goes on to its end. -/
  marker_rest : f.marker ++ rest = slice t i (lineEnd t i)
  /-- The lines are the first ones below the line of the marker. -/
  lines_eq : lines = (linesBelow t (lineEnd t i)).take s.declarations
  length_lines : lines.length = s.declarations
  /-- There is at least one, unless there is a block. -/
  lines_ne_nil : f.IsFlat → lines ≠ []
  /-- They match different declaration lines at the head of the template. -/
  assigned : List.Subperm heads f.heads
  matched : List.Forall₂ Declaration.Matches heads lines
  block_below : Below t f (lineEnd t i + (lines.flatMap (.char '\n' :: ·)).length) below
  feed_eq : feed = [] ∨ feed = [.char '\n']
  text_eq : s.text t =
    lead ++ (f.marker ++ (rest ++ (lines.flatMap (.char '\n' :: ·) ++ (below ++ feed))))

/-- The declaration lines of a template are one line each. -/
theorem lineFeed_not_mem_of_mem_heads {l : Text} (h : l ∈ f.heads) : .char '\n' ∉ l := by
  intro hmem
  have hbreak := isLineBreak_of_mem_lines ((List.takeWhile_prefix _).subset h) hmem
  revert hbreak
  decide

namespace Span

theorem isDeclaration_of_mem_heads {l : Text} (h : l ∈ f.heads) :
    Declaration.isDeclaration l = true :=
  List.all_eq_true.1 List.all_takeWhile l h

/-- The block that ends where a block is found to end. -/
theorem exists_below {n : Nat} {c : CodePoint} {name : Text} (hblock : f.block = some (c :: name))
    (hline : t.drop i = [] ∨ (t.drop i).head? = some (.char '\n'))
    (h : blockStop t f n i (c :: name) = .ok j) :
    ∃ below, Below t f i below ∧ t.drop i = below ++ t.drop j := by
  unfold blockStop at h
  dsimp only at h
  obtain ⟨blanks, more, hlines, hblanks, hmore, hskip⟩ :=
    exists_skipBlankLines (i + 1) (linesBelow t i)
  split at h
  · cases h
  · next size hsize =>
    obtain ⟨head, r, hhead, hdrop, rfl⟩ := exists_of_headerBrace? hsize
    split at h
    · next close hclose =>
      cases h
      rw [hskip] at hclose hdrop
      obtain ⟨-, hlt, -, -⟩ := getElem?_of_closeOf hclose
      have hbrace : i + (blanks.flatMap (.char '\n' :: ·) ++ .char '\n' :: head).length =
          i + 1 + (blanks.flatMap (.char '\n' :: ·)).length + head.length := by
        rw [List.length_append, List.length_cons]
        omega
      -- what is passed over is the blank lines, as there is a header behind them
      have hrest := drop_eq_flatMap_linesBelow hline
      have hne : more ≠ [] := by
        apply hmore
        intro hnil
        rw [hnil] at hrest
        have hbeyond : t.drop (i + 1 + (blanks.flatMap (.char '\n' :: ·)).length) = [] := by
          rw [Nat.add_assoc, ← List.drop_drop, hrest]
          exact List.drop_nil
        rw [hbeyond] at hdrop
        simp at hdrop
      obtain ⟨line, lines, rfl⟩ := List.exists_cons_of_ne_nil hne
      rw [hlines, List.flatMap_append, List.flatMap_cons] at hrest
      have hheader : line ++ lines.flatMap (.char '\n' :: ·) =
          t.drop (i + 1 + (blanks.flatMap (.char '\n' :: ·)).length) := by
        rw [Nat.add_right_comm, ← List.drop_drop, ← List.drop_drop, hrest, List.drop_left]
        rfl
      have hlines' : ∀ l ∈ blanks, .char '\n' ∉ l ∧ allBlank l = true := by
        intro l hl
        have hmem : l ∈ linesBelow t i := hlines ▸ List.mem_append_left _ hl
        exact ⟨not_mem_of_mem_linesBelow hmem, hblanks l hl⟩
      rw [← Int.natCast_add, ← hbrace] at hclose
      refine ⟨_, .block hblock hlines' hhead rfl hclose, ?_⟩
      rw [hbrace, List.append_assoc, List.cons_append, List.append_assoc,
        slice_append_drop (by omega), ← List.drop_drop, hdrop, List.drop_left, ← hdrop,
        ← hheader, hrest]
      rfl
    · cases h

theorem isFlat_of_forall_ne (h : ∀ c name, f.block = some (c :: name) → False) : f.IsFlat := by
  cases hblock : f.block with
  | none => exact .inl hblock
  | some name =>
    cases name with
    | nil => exact .inr hblock
    | cons c name => exact (h c name hblock).elim

/-- Behind the lines that are taken, a line ends. -/
theorem drop_past_lines (h : t.drop i = (linesBelow t i).flatMap (.char '\n' :: ·)) (k : Nat) :
    t.drop i = ((linesBelow t i).take k).flatMap (.char '\n' :: ·) ++
        t.drop (i + (((linesBelow t i).take k).flatMap (.char '\n' :: ·)).length) ∧
      (t.drop (i + (((linesBelow t i).take k).flatMap (.char '\n' :: ·)).length) = [] ∨
        (t.drop (i + (((linesBelow t i).take k).flatMap (.char '\n' :: ·)).length)).head? =
          some (.char '\n')) := by
  have hrest : t.drop (i + (((linesBelow t i).take k).flatMap (.char '\n' :: ·)).length) =
      ((linesBelow t i).drop k).flatMap (.char '\n' :: ·) := by
    rw [← List.drop_drop, h]
    nth_rewrite 2 [← List.take_append_drop k (linesBelow t i)]
    rw [List.flatMap_append, List.drop_left]
  refine ⟨?_, ?_⟩
  · rw [hrest, ← List.flatMap_append, List.take_append_drop, h]
  · rw [hrest]
    cases (linesBelow t i).drop k with
    | nil => exact .inl rfl
    | cons l ls => exact .inr rfl

/-- What follows the declaration lines of a span, and the line feed at its end, if one is there. -/
theorem exists_end (h : ofMarker t f i = .ok s) {last taken : Nat}
    (htaken : takeDeclarations f.patterns (lineEnd t i) (linesBelow t (lineEnd t i)) = (last, taken))
    (hlast : t.drop last = [] ∨ (t.drop last).head? = some (.char '\n')) :
    s.declarations = taken ∧ (f.IsFlat → taken ≠ 0) ∧ ∃ below feed, Below t f last below ∧
      (feed = [.char '\n'] ∨ (feed = [] ∧ t[s.stop]? ≠ some (.char '\n'))) ∧
        t.drop last = below ++ (feed ++ t.drop s.stop) := by
  unfold ofMarker at h
  dsimp only at h
  rw [htaken] at h
  dsimp only at h
  split at h
  · cases h
  · next stop hstop =>
    cases h
    obtain ⟨hsome, below, hbelow, hdrop⟩ : (f.IsFlat → taken ≠ 0) ∧ ∃ below,
        Below t f last below ∧ t.drop last = below ++ t.drop stop := by
      split at hstop
      · next c name hblock =>
        refine ⟨?_, exists_below hblock hlast hstop⟩
        rintro (hflat | hflat)
        · rw [hblock] at hflat
          cases hflat
        · rw [hblock] at hflat
          cases hflat
      · next hflat =>
        split at hstop
        · cases hstop
        · next hsome =>
          cases hstop
          exact ⟨fun _ => hsome, [], .nothing (isFlat_of_forall_ne hflat), rfl⟩
    refine ⟨rfl, hsome, below, ?_⟩
    rw [hdrop]
    dsimp only
    split
    · next hfeed =>
      refine ⟨[.char '\n'], hbelow, .inl rfl, ?_⟩
      rw [List.drop_eq_getElem?_toList_append, eq_of_beq hfeed]
      rfl
    · next hfeed => exact ⟨[], hbelow, .inr ⟨rfl, by simpa using hfeed⟩, rfl⟩

/-- Every span has its contents, and the line feed that follows them is one of them. -/
theorem exists_contents (hne : f.marker ≠ []) (hfeed : .char '\n' ∉ f.marker)
    (hfront : f.marker <+: t.drop i) (h : ofMarker t f i = .ok s) :
    ∃ lead rest lines heads below feed, s.Contents t f i lead rest lines heads below feed ∧
      (feed = [] → t[s.stop]? ≠ some (.char '\n')) := by
  have hlength := lt_length_of_prefix_drop hne hfront
  obtain ⟨hstart, hstop, hboundary⟩ := ofMarker_eq_ok h hlength
  obtain ⟨line, after, hdrop, hend, -, hafter⟩ := exists_lineEnd t i
  -- the marker is on one line
  obtain ⟨rest, rfl⟩ : f.marker <+: line := by
    rw [hdrop] at hfront
    rcases hafter with rfl | hafter
    · rwa [List.append_nil] at hfront
    · obtain ⟨r, rfl⟩ := List.head?_eq_some_iff.1 hafter
      exact prefix_of_prefix_line hfeed hfront
  have hbehind : t.drop (lineEnd t i) = after := by
    rw [hend, ← List.drop_drop, hdrop, List.drop_left]
  have hheads : ∀ l ∈ f.heads, Declaration.isDeclaration l = true :=
    fun _ => isDeclaration_of_mem_heads
  obtain ⟨k, heads, htaken, hle, hsub, hmatches⟩ :=
    exists_takeDeclarations hheads (lineEnd t i) (linesBelow t (lineEnd t i))
  obtain ⟨hlines, hlast⟩ :=
    drop_past_lines (drop_eq_flatMap_linesBelow (i := lineEnd t i) (by rwa [hbehind])) k
  obtain ⟨rfl, hsome, below, feed, hbelow, hfeeds, hpast⟩ := exists_end h htaken hlast
  have hcount : ((linesBelow t (lineEnd t i)).take s.declarations).length = s.declarations := by
    rw [List.length_take, Nat.min_eq_left hle]
  have hlead : slice t (lineStart t i) i ++ t.drop i = t.drop (lineStart t i) :=
    slice_append_drop (lineStart_le t i) t
  refine ⟨_, rest, _, heads, below, feed,
    { lead_eq := rfl
      start_eq := ?_
      marker_rest := ?_
      lines_eq := rfl
      length_lines := hcount
      lines_ne_nil := fun hflat hnil => hsome hflat (by rw [← hcount, hnil]; rfl)
      assigned := hsub
      matched := hmatches
      block_below := hbelow
      feed_eq := hfeeds.symm.imp_left And.left
      text_eq := ?_ }, ?_⟩
  · have := lineStart_le t i
    rw [hstart]
    split
    · rw [length_slice (Nat.le_of_lt hlength)]
      omega
    · rfl
  · have hmarker := slice_append_drop (le_lineEnd t i) t
    rw [hdrop, hbehind] at hmarker
    exact (List.append_cancel_right hmarker).symm
  · have hle : s.start ≤ s.stop := by
      have := start_le h hlength
      have := le_lineEnd t i
      omega
    have hwhole : s.text t ++ t.drop s.stop = _ := slice_append_drop hle t
    apply List.append_cancel_right (hwhole.trans _)
    simp only [List.append_assoc]
    rw [← hpast, ← hlines, hbehind, ← List.append_assoc f.marker, ← hdrop, hstart]
    split
    · exact hlead.symm
    · rfl
  · rintro rfl
    exact (hfeeds.resolve_left (by simp)).2

end Span

/-- A fragment without a block has no span where nothing below the marker matches. -/
theorem spanFrom_eq_error (hflat : f.IsFlat) (hi : searchFrom f.marker t pos = some i)
    (hnone : ∀ line ∈ (Span.linesBelow t (lineEnd t i)).head?, ∀ l ∈ f.heads,
      ¬ Declaration.Matches l line) :
    spanFrom t f pos = .error (.noDeclarations f.marker (Place.of t i).line) := by
  have hheads : ∀ l ∈ f.heads, Declaration.isDeclaration l = true :=
    fun _ => Span.isDeclaration_of_mem_heads
  have htaken : Span.takeDeclarations f.patterns (lineEnd t i) (Span.linesBelow t (lineEnd t i)) =
      (lineEnd t i, 0) := Span.takeDeclarations_eq_zero hheads hnone (lineEnd t i)
  have herror : Span.ofMarker t f i = .error (.noDeclarations f.marker (Place.of t i).line) := by
    unfold Span.ofMarker
    dsimp only
    rw [htaken]
    rcases hflat with hblock | hblock
    · rw [hblock]
      rfl
    · rw [hblock]
      rfl
  rw [spanFrom, hi]
  dsimp only
  rw [herror]
  rfl

/-- **A span holds the text of its fragment only.** It has no more declaration lines than the
template, and a fragment without a block has no span where no line below the marker matches. -/
theorem spanFrom_contents (hne : f.marker ≠ []) (hfeed : .char '\n' ∉ f.marker) :
    (∀ s, spanFrom t f pos = .ok (some s) → s.declarations ≤ f.heads.length ∧
      ∃ i lead rest lines heads below feed, searchFrom f.marker t pos = some i ∧
        s.Contents t f i lead rest lines heads below feed) ∧
    (f.IsFlat → ∀ i, searchFrom f.marker t pos = some i →
      (∀ line ∈ (Span.linesBelow t (lineEnd t i)).head?, ∀ l ∈ f.heads,
        ¬ Declaration.Matches l line) →
      spanFrom t f pos = .error (.noDeclarations f.marker (Place.of t i).line)) := by
  refine ⟨fun s hs => ?_, fun hflat i hi hnone => spanFrom_eq_error hflat hi hnone⟩
  unfold spanFrom at hs
  split at hs
  · cases hs
  · next i hi =>
    obtain ⟨_, hs, heq⟩ := exists_of_map_eq_ok hs
    cases heq
    obtain ⟨lead, rest, lines, heads, below, feed, hcontents, -⟩ :=
      Span.exists_contents hne hfeed (prefix_of_searchFrom hi).2 hs
    refine ⟨?_, i, lead, rest, lines, heads, below, feed, hi, hcontents⟩
    rw [← hcontents.length_lines, ← hcontents.matched.length_eq]
    exact hcontents.assigned.length_le

/-- A text with a fragment that somebody has written down by hand. -/
def handwrittenText : Text :=
  "x \x7b // added, see below\n\timplementation 'a:2.0' \n \nfoo\t\x7b bar '\x7d' \x7d\n\x7d\n".toText

/-- Its span starts at the marker, as there is something before it on its line, and takes a line, a
blank one and the block. -/
theorem spanFrom_handwrittenText :
    mixedFragment.marker ≠ [] ∧ .char '\n' ∉ mixedFragment.marker ∧
      spanFrom handwrittenText mixedFragment 0 = .ok (some ⟨4, 67, 1⟩) ∧
      1 ≤ mixedFragment.heads.length ∧
      ∃ i lead rest lines heads below feed,
        searchFrom mixedFragment.marker handwrittenText 0 = some i ∧
        Span.Contents handwrittenText mixedFragment i ⟨4, 67, 1⟩ lead rest lines heads below feed := by
  have hne : mixedFragment.marker ≠ [] := by decide
  have hfeed : .char '\n' ∉ mixedFragment.marker := by decide
  have hspan : spanFrom handwrittenText mixedFragment 0 = .ok (some ⟨4, 67, 1⟩) := by
    unfold handwrittenText mixedFragment
    repeat rw [String.toText_ofList]
    exact eq_ok_of_toOption (by decide)
  exact ⟨hne, hfeed, hspan, (spanFrom_contents hne hfeed).1 _ hspan⟩

end Graft
