import Graft.Proofs.Edit.Spans
import Graft.Proofs.Plan

/-!
# Nothing of the user is lost

An edit takes the spans of stale fragments out and puts fragments in, and what else it does to a
text concerns blanks only. Both halves are told step by step, `Cleared` and `Supplied`, with the
spans and the rendered fragments of each step. Over a whole edit the characters that are no blanks
are accounted for one by one:

> `edit_preserves`: what stood outside the spans is still there, in order, and apart from it there
> is nothing but the fragments that were put in.

A cut works on a text from which later spans are gone already. It stays right because spans are
apart: the indices of a span are not touched by the cuts before it, and the line feed that goes with
a span belongs to no other span.
-/

namespace Graft

open Text

/-- Whether a span covers the character at an index. -/
def Span.covers (s : Span) (i : Nat) : Bool :=
  decide (s.start ≤ i) && decide (i < s.stop)

theorem Span.covers_iff {s : Span} {i : Nat} : s.covers i = true ↔ s.start ≤ i ∧ i < s.stop := by
  rw [covers, Bool.and_eq_true, decide_eq_true_eq, decide_eq_true_eq]

/-- The characters of a text that no span covers, the first character having index `pos`. -/
def uncovered (ss : List Span) (pos : Nat) (t : Text) : Text :=
  ((t.zipIdx pos).filter fun e => !ss.any (·.covers e.2)).map (·.1)

variable {t u document : Text} {f : Fragment} {pos : Nat} {s : Span} {ss : List Span}

/-! ## What spans leave -/

theorem uncovered_append (ss : List Span) (pos : Nat) (t u : Text) :
    uncovered ss pos (t ++ u) = uncovered ss pos t ++ uncovered ss (pos + t.length) u := by
  rw [uncovered, List.zipIdx_append, List.filter_append, List.map_append]
  rfl

theorem uncovered_eq_self (h : ∀ s ∈ ss, pos + t.length ≤ s.start) : uncovered ss pos t = t := by
  rw [uncovered, List.filter_eq_self.2, List.zipIdx_map_fst]
  intro e he
  have hlt := List.snd_lt_add_of_mem_zipIdx he
  rw [Bool.not_eq_true', List.any_eq_false]
  intro s hs hcovers
  have := h s hs
  have := of_decide_eq_true (Bool.and_eq_true_iff.1 hcovers).1
  omega

theorem uncovered_eq_nil (hs : s ∈ ss) (hstart : s.start ≤ pos) (hstop : pos + t.length ≤ s.stop) :
    uncovered ss pos t = [] := by
  rw [uncovered, List.map_eq_nil_iff, List.filter_eq_nil_iff]
  intro e he
  have hle := List.le_snd_of_mem_zipIdx he
  have hlt := List.snd_lt_add_of_mem_zipIdx he
  rw [Bool.not_eq_true', Bool.not_eq_false, List.any_eq_true]
  exact ⟨s, hs, Bool.and_eq_true_iff.2 ⟨decide_eq_true (by omega), decide_eq_true (by omega)⟩⟩

/-- A span covers nothing behind it. -/
theorem uncovered_cons (h : s.stop ≤ pos) (t : Text) :
    uncovered (s :: ss) pos t = uncovered ss pos t := by
  unfold uncovered
  congr 1
  apply List.filter_congr
  intro e he
  have hle := List.le_snd_of_mem_zipIdx he
  have hnot : s.covers e.2 = false := by
    rw [Span.covers, Bool.and_eq_false_iff]
    exact .inr (decide_eq_false (by omega))
  rw [List.any_cons, hnot, Bool.false_or]

theorem Apart.le_start (h : Apart t pos ss) : ∀ s ∈ ss, pos ≤ s.start := by
  induction h with
  | nil => simp
  | cons hstart hstop _ _ ih =>
    intro s hs
    rcases List.mem_cons.1 hs with rfl | hs
    · exact hstart
    · have := ih s hs
      omega

/-- What comes from a place on is what precedes the first span, the span, and what follows. -/
theorem slice_append_text (hstart : pos ≤ s.start) (hstop : s.start ≤ s.stop) (t : Text) :
    t.drop pos = slice t pos s.start ++ (s.text t ++ t.drop s.stop) := by
  rw [Span.text, slice_append_drop hstop, slice_append_drop hstart]

/-- The first of some spans leaves what precedes it and what the others leave of the rest. -/
theorem Apart.uncovered_eq (h : Apart t pos (s :: ss)) : uncovered (s :: ss) pos (t.drop pos) =
    slice t pos s.start ++ uncovered ss s.stop (t.drop s.stop) := by
  cases h with
  | cons hstart hstop _ hrest =>
    have hle := hrest.le_length
    have hbefore : pos + (slice t pos s.start).length = s.start := by
      rw [length_slice (by omega)]
      omega
    have hspan : s.start + (s.text t).length = s.stop := by
      rw [Span.text, length_slice hle]
      omega
    rw [slice_append_text hstart hstop t, uncovered_append, uncovered_append, hbefore, hspan,
      uncovered_eq_nil (s := s) List.mem_cons_self (Nat.le_refl _) (by omega),
      uncovered_cons (Nat.le_refl _), uncovered_eq_self]
    · rfl
    · intro s' hs'
      rcases List.mem_cons.1 hs' with rfl | hs'
      · omega
      · have := hrest.le_start s' hs'
        omega

/-- What some spans leave and what they cover is the whole text. -/
theorem Apart.perm (h : Apart t pos ss) :
    (uncovered ss pos (t.drop pos) ++ ss.flatMap (·.text t)).Perm (t.drop pos) := by
  induction ss generalizing pos with
  | nil => rw [uncovered_eq_self (by simp), List.flatMap_nil, List.append_nil]
  | cons s ss ih =>
    have heq := h.uncovered_eq
    cases h with
    | cons hstart hstop _ hrest =>
      rw [heq, slice_append_text hstart hstop t, List.flatMap_cons, List.append_assoc,
        List.perm_append_left_iff]
      exact (List.perm_append_comm_assoc ..).trans ((ih hrest).append_left _)

/-! ## What a cut leaves -/

/-- A cut takes out a span, or with it the line feed that ends a blank line before it, or the line feed
behind it if the span starts a line. -/
theorem Span.cut_cases (s : Span) (u : Text) :
    s.cut u = u.take s.start ++ u.drop s.stop ∨
    (2 ≤ s.start ∧ slice u (s.start - 2) s.start = [.char '\n', .char '\n'] ∧
      (u.drop s.stop = [] ∨ (u.drop s.stop).head? = some (.char '\n')) ∧
      s.cut u = u.take (s.start - 1) ++ u.drop s.stop) ∨
    (u[s.stop]? = some (.char '\n') ∧ StartsLine u s.start ∧
      s.cut u = u.take s.start ++ u.drop (s.stop + 1)) := by
  unfold cut widen
  dsimp only
  split
  · next h =>
    obtain ⟨h, hend⟩ := Bool.and_eq_true_iff.1 h
    obtain ⟨htwo, hslice⟩ := Bool.and_eq_true_iff.1 h
    refine .inr (.inl ⟨of_decide_eq_true htwo, eq_of_beq hslice, ?_, rfl⟩)
    rw [List.drop_eq_nil_iff, List.head?_drop]
    exact (Bool.or_eq_true_iff.1 hend).imp of_decide_eq_true eq_of_beq
  · split
    · next h =>
      obtain ⟨hfeed, hline⟩ := Bool.and_eq_true_iff.1 h
      exact .inr (.inr ⟨eq_of_beq hfeed, (Bool.or_eq_true_iff.1 hline).imp eq_of_beq eq_of_beq, rfl⟩)
    · exact .inl rfl

/-- **What a cut leaves** from a place on is what precedes the span and what follows it, but perhaps for
a line feed between the two. The cut may be made in a text that agrees with the one in which the span
was found up to the end of the span only. -/
theorem Span.drop_cut (hpos : pos ≤ s.start) (hstop : s.start ≤ s.stop)
    (hblank : 2 ≤ s.start →
      slice t (s.start - 2) s.start = [.char '\n', .char '\n'] → pos < s.start)
    (hlength : s.stop ≤ t.length) (hu : u.take s.stop = t.take s.stop) :
    (s.cut u).take pos = t.take pos ∧
      ((s.cut u).drop pos = slice t pos s.start ++ u.drop s.stop ∨
      (∃ x, slice t pos s.start = x ++ [.char '\n'] ∧ (x = [] ∨ x.getLast? = some (.char '\n')) ∧
        (u.drop s.stop = [] ∨ (u.drop s.stop).head? = some (.char '\n')) ∧
        (s.cut u).drop pos = x ++ u.drop s.stop) ∨
      (∃ y, u.drop s.stop = .char '\n' :: y ∧ StartsLine t s.start ∧
        (s.cut u).drop pos = slice t pos s.start ++ y)) := by
  have hagree : ∀ n, n ≤ s.stop → u.take n = t.take n := by
    intro n hn
    rw [← Nat.min_eq_left hn, ← List.take_take, hu, List.take_take]
  have hfront : ∀ n ≤ s.start, pos ≤ n → ∀ v,
      (u.take n ++ v).take pos = t.take pos ∧ (u.take n ++ v).drop pos = slice t pos n ++ v := by
    intro n hn hpos v
    have hle : pos ≤ (t.take n).length := by
      rw [List.length_take]
      omega
    rw [hagree n (by omega), List.take_append_of_le_length hle, List.take_take,
      Nat.min_eq_left hpos, List.drop_append_of_le_length hle]
    exact ⟨rfl, rfl⟩
  rcases s.cut_cases u with hcut | ⟨htwo, hslice, hend, hcut⟩ | ⟨hfeed, hline, hcut⟩
  · obtain ⟨htake, hdrop⟩ := hfront s.start (Nat.le_refl _) hpos (u.drop s.stop)
    rw [hcut]
    exact ⟨htake, .inl hdrop⟩
  · rw [slice, hagree s.start hstop, ← slice] at hslice
    have hlt := hblank htwo hslice
    have hfirst := getElem?_slice (k := 0) t (s.start - 2) s.start
    have hsecond := getElem?_slice (k := 1) t (s.start - 2) s.start
    rw [hslice, if_pos (by omega)] at hfirst hsecond
    rw [show s.start - 2 + 1 = s.start - 1 by omega] at hsecond
    have hline : StartsLine t (s.start - 1) := .inr hfirst.symm
    obtain ⟨htake, hdrop⟩ := hfront (s.start - 1) (Nat.sub_le _ _) (by omega) (u.drop s.stop)
    rw [hcut]
    refine ⟨htake, .inr (.inl ⟨slice t pos (s.start - 1), ?_, hline.slice_eq pos, hend, hdrop⟩)⟩
    rw [← slice_succ (by omega) hsecond.symm, Nat.sub_add_cancel (by omega)]
  · obtain ⟨htake, hdrop⟩ := hfront s.start (Nat.le_refl _) hpos (u.drop (s.stop + 1))
    rw [hcut]
    refine ⟨htake, .inr (.inr ⟨u.drop (s.stop + 1), ?_, ?_, hdrop⟩)⟩
    · obtain ⟨hlt, hc⟩ := List.getElem?_eq_some_iff.1 hfeed
      rw [List.drop_eq_getElem_cons hlt, hc]
    · by_cases hzero : s.start = 0
      · exact .inl hzero
      · have hbefore : s.start - 1 < s.stop := by omega
        right
        rw [← List.getElem?_take_of_lt hbefore, ← hu, List.getElem?_take_of_lt hbefore]
        exact hline.resolve_left hzero

/-- A cut leaves what precedes the span, but for a line feed, and what follows it, but for a line
feed. -/
theorem Span.solids_cut (hpos : pos ≤ s.start) (hstop : s.start ≤ s.stop)
    (hblank : 2 ≤ s.start →
      slice t (s.start - 2) s.start = [.char '\n', .char '\n'] → pos < s.start)
    (hlength : s.stop ≤ t.length) (hu : u.take s.stop = t.take s.stop) :
    (s.cut u).take pos = t.take pos ∧
      solids ((s.cut u).drop pos) = solids (slice t pos s.start) ++ solids (u.drop s.stop) := by
  obtain ⟨htake, heq | ⟨x, hx, -, -, heq⟩ | ⟨y, hy, -, heq⟩⟩ :=
    s.drop_cut hpos hstop hblank hlength hu
  · exact ⟨htake, by rw [heq, solids_append]⟩
  · exact ⟨htake, by rw [heq, hx, solids_append, solids_append, solids_lineFeed, solids_nil,
      List.append_nil]⟩
  · exact ⟨htake, by rw [heq, hy, solids_append, solids_lineFeed]⟩

/-- Cutting out spans that are apart, the last one first, leaves what they do not cover. -/
theorem Apart.solids_cuts (h : Apart t pos ss) :
    (ss.foldr (fun s u => s.cut u) t).take pos = t.take pos ∧
      solids ((ss.foldr (fun s u => s.cut u) t).drop pos) =
        solids (uncovered ss pos (t.drop pos)) := by
  induction ss generalizing pos with
  | nil => exact ⟨rfl, by rw [uncovered_eq_self (by simp)]; rfl⟩
  | cons s ss ih =>
    have heq := h.uncovered_eq
    cases h with
    | cons hstart hstop hblank hrest =>
      obtain ⟨htake, hdrop⟩ := ih hrest
      obtain ⟨htake', hdrop'⟩ := s.solids_cut hstart hstop hblank hrest.le_length htake
      rw [List.foldr_cons]
      exact ⟨htake', by rw [hdrop', hdrop, heq, solids_append]⟩

/-- Taking a fragment out leaves what its spans do not cover, blanks apart. -/
theorem solids_remove (hmarker : f.marker ≠ []) (h : remove t f = .ok u) :
    ∃ ss, spans t f = .ok ss ∧ Apart t 0 ss ∧ solids u = solids (uncovered ss 0 t) := by
  obtain ⟨ss, hss, rfl⟩ := exists_of_map_eq_ok h
  have hapart := spans_apart hmarker hss
  refine ⟨ss, hss, hapart, ?_⟩
  rw [List.foldl_reverse]
  exact hapart.solids_cuts.2

/-! ## Whole edits -/

namespace Plan

open scoped List

/-- Fragments were taken out of a text one after the other. At each step the characters that are no
blanks are those that the spans of the fragment do not cover; `gone` is what the spans held. -/
inductive Cleared : List Fragment → Text → Text → Text → Prop where
  | done {t : Text} : Cleared [] t t []
  | take {t t' u gone : Text} {f : Fragment} {fs : List Fragment} {ss : List Span}
      (hspans : spans t f = .ok ss) (hapart : Apart t 0 ss) (hremove : remove t f = .ok t')
      (hsolids : solids t' = solids (uncovered ss 0 t))
      (h : Cleared fs t' u gone) : Cleared (f :: fs) t u (ss.flatMap (·.text t) ++ gone)

/-- Fragments were put into a text one after the other. At each step the text is left as it was, if
it holds the marker, or else is split where the anchor says and has the characters of the fragment
between the two parts; `put` lists the fragments put in, rendered. -/
inductive Supplied (versions : VersionSet) :
    List Fragment → Text → Text → List (Fragment × Text) → Prop where
  | done {t : Text} : Supplied versions [] t t []
  | skip {t u : Text} {f : Fragment} {fs : List Fragment} {put : List (Fragment × Text)}
      (hmarker : t.contains f.marker = true) (hinsert : insert t f versions = .ok t)
      (h : Supplied versions fs t u put) : Supplied versions (f :: fs) t u put
  | put {t t' u rendered : Text} {f : Fragment} {fs : List Fragment}
      {put : List (Fragment × Text)} (hmarker : t.contains f.marker = false)
      (hinsert : insert t f versions = .ok t') (hrender : f.render versions = .ok rendered)
      (hparts : f.anchor.Parts t rendered t') (h : Supplied versions fs t' u put) :
      Supplied versions (f :: fs) t u ((f, rendered) :: put)

variable {set : FragmentSet} {versions : VersionSet} {states : Table Standing}
  {fs : List Fragment} {gone : Text} {put : List (Fragment × Text)}

theorem cleared_of_removeAll (hfs : ∀ f ∈ fs, f.marker ≠ []) (h : (removeAll t fs).2 = .ok u) :
    ∃ gone, Cleared fs t u gone := by
  induction fs generalizing t with
  | nil =>
    cases h
    exact ⟨[], .done⟩
  | cons f fs ih =>
    unfold removeAll at h
    split at h
    · cases h
    · next t' ht' =>
      obtain ⟨ss, hss, hapart, hsolids⟩ := solids_remove (hfs f List.mem_cons_self) ht'
      obtain ⟨gone, hgone⟩ := ih (fun g hg => hfs g (List.mem_cons_of_mem f hg)) h
      exact ⟨_, .take hss hapart ht' hsolids hgone⟩

theorem supplied_of_insertAll (h : (insertAll versions t fs).2 = .ok u) :
    ∃ put, Supplied versions fs t u put := by
  induction fs generalizing t with
  | nil =>
    cases h
    exact ⟨[], .done⟩
  | cons f fs ih =>
    unfold insertAll at h
    split at h
    · cases h
    · next t' ht' =>
      obtain ⟨put, hput⟩ := ih h
      rcases insert_eq_ok ht' with ⟨hmarker, rfl⟩ | ⟨hmarker, rendered, hr, hparts⟩
      · exact ⟨put, .skip hmarker ht' hput⟩
      · exact ⟨_, .put hmarker ht' hr hparts hput⟩

/-- What is left was there, in the same order. -/
theorem Cleared.sublist (h : Cleared fs t u gone) : (solids u).Sublist (solids t) := by
  induction h with
  | done => exact List.Sublist.refl _
  | @take t t' u gone f fs ss hspans hapart hremove hsolids h ih =>
    have hleft : (uncovered ss 0 t).Sublist t := by
      have hsub := (List.filter_sublist (p := fun e => !ss.any (·.covers e.2))
        (l := t.zipIdx 0)).map Prod.fst
      rwa [List.zipIdx_map_fst] at hsub
    rw [hsolids] at ih
    exact ih.trans (hleft.filter _)

/-- What is left and what the spans held is what was there. -/
theorem Cleared.perm (h : Cleared fs t u gone) :
    (solids u ++ solids gone).Perm (solids t) := by
  induction h with
  | @done t => rw [solids_nil, List.append_nil]
  | @take t t' u gone f fs ss hspans hapart hremove hsolids h ih =>
    rw [hsolids] at ih
    have hperm := (hapart.perm).filter (!isBlank ·)
    rw [List.filter_append] at hperm
    calc solids u ++ solids (ss.flatMap (·.text t) ++ gone)
        = solids u ++ (solids (ss.flatMap (·.text t)) ++ solids gone) := by rw [solids_append]
      _ ~ solids (ss.flatMap (·.text t)) ++ (solids u ++ solids gone) :=
        List.perm_append_comm_assoc ..
      _ ~ solids (ss.flatMap (·.text t)) ++ solids (uncovered ss 0 t) := ih.append_left _
      _ ~ solids (uncovered ss 0 t) ++ solids (ss.flatMap (·.text t)) := List.perm_append_comm
      _ ~ solids t := hperm

/-- What was there is still there, in the same order. -/
theorem Supplied.sublist (h : Supplied versions fs t u put) : (solids t).Sublist (solids u) := by
  induction h with
  | done => exact List.Sublist.refl _
  | skip _ _ _ ih => exact ih
  | put _ _ _ hparts _ ih =>
    obtain ⟨before, after, rfl, -, hsolids⟩ := hparts
    refine List.Sublist.trans ?_ ih
    rw [hsolids, solids_append]
    exact (List.sublist_append_left ..).append (List.Sublist.refl _)

/-- What comes of it is what was there and the fragments put in. -/
theorem Supplied.perm (h : Supplied versions fs t u put) :
    (solids u).Perm (solids t ++ solids (put.flatMap (·.2))) := by
  induction h with
  | @done t => rw [List.flatMap_nil, solids_nil, List.append_nil]
  | skip _ _ _ ih => exact ih
  | @put t t' u rendered f fs put _ _ _ hparts _ ih =>
    obtain ⟨before, after, rfl, -, hsolids⟩ := hparts
    rw [hsolids, List.append_assoc, List.append_assoc] at ih
    rw [List.flatMap_cons, solids_append, solids_append, List.append_assoc]
    exact ih.trans ((List.perm_append_comm_assoc ..).append_left _)

/-- A fragment is put in at most once. -/
theorem Supplied.sublist_fst (h : Supplied versions fs t u put) :
    (put.map (·.1)).Sublist fs := by
  induction h with
  | done => exact List.Sublist.refl _
  | skip _ _ _ ih => exact ih.cons _
  | put _ _ _ _ _ ih => exact ih.cons_cons _

/-- **An edit accounts for every character that is no blank.** The spans of the stale fragments are
taken out, and each fragment whose marker is then missing is put in once, at its anchor, unless one
put in before it has brought its marker in. Whatever stood outside the spans is still there, in the
same order; and the new text with what was taken out is the old one with what was put in. -/
theorem edit_preserves (h : (edit set versions states t).2 = .ok u) :
    ∃ cleared gone fs put, Cleared (stale set states) t cleared gone ∧
      set.insertionOrder (missingMarkers set cleared) = .ok fs ∧
      fs ~ (set.fragments.filter fun f => !cleared.contains f.marker) ∧
      Supplied versions fs cleared u put ∧ (put.map (·.1)).Sublist fs ∧
      (solids cleared).Sublist (solids t) ∧ (solids cleared).Sublist (solids u) ∧
      solids u ++ solids gone ~ solids t ++ solids (put.flatMap (·.2)) := by
  have hmarker : ∀ f ∈ stale set states, f.marker ≠ [] :=
    fun f hf => set.marker_ne_nil (List.mem_filter.1 hf).1
  unfold edit at h
  split at h
  · cases h
  · next removed cleared hremoved =>
    obtain ⟨gone, hcleared⟩ := cleared_of_removeAll hmarker (congrArg Prod.snd hremoved)
    unfold complete at h
    dsimp only at h
    split at h
    · cases h
    · next fs hfs =>
      obtain ⟨put, hsupplied⟩ := supplied_of_insertAll h
      refine ⟨cleared, gone, fs, put, hcleared, hfs, insertionOrder_perm hfs, hsupplied,
        hsupplied.sublist_fst, hcleared.sublist, hsupplied.sublist, ?_⟩
      have hput := hsupplied.perm
      generalize solids (put.flatMap (·.2)) = added at hput ⊢
      calc solids u ++ solids gone
          ~ solids cleared ++ added ++ solids gone := hput.append_right _
        _ = solids cleared ++ (added ++ solids gone) := List.append_assoc ..
        _ ~ added ++ (solids cleared ++ solids gone) := List.perm_append_comm_assoc ..
        _ ~ added ++ solids t := hcleared.perm.append_left _
        _ ~ solids t ++ added := List.perm_append_comm

/-- A declaration of a pinned version, inside a block. -/
def pinned : Fragment where
  marker := "// pin".toText
  template := "implementation 'x:core:$v'".toText
  anchor := .inBlock "dependencies".toText

/-- The set of the one fragment. -/
def pinnedSet : FragmentSet := ⟨[pinned], Fragment.checkAll_eq_ok (by decide)⟩

/-- The version that the declaration is to have. -/
def pinnedVersions : VersionSet := ⟨"t".toText, [("v".toText, "2".toText)]⟩

/-- A text with an old version of the declaration, and another declaration right below. -/
def outdatedText : Text :=
  ("dependencies \x7b\n    // pin\n    implementation 'x:core:1'\n" ++
    "    implementation 'own:lib:1'\n\x7d\n").toText

/-- How the fragment stands in it. -/
def outdatedStates : Table Standing := [(pinned.marker, .stale)]

/-- The text with the new version; the other declaration is still there. -/
def updatedText : Text :=
  ("dependencies \x7b\n    // pin\n    implementation 'x:core:2'\n\n" ++
    "    implementation 'own:lib:1'\n\x7d\n").toText

theorem edit_preserves_updatedText :
    standings outdatedText pinnedSet.fragments pinnedVersions = .ok outdatedStates ∧
      (edit pinnedSet pinnedVersions outdatedStates outdatedText).2 = .ok updatedText ∧
      ∃ cleared gone fs put, Cleared (stale pinnedSet outdatedStates) outdatedText cleared gone ∧
        pinnedSet.insertionOrder (missingMarkers pinnedSet cleared) = .ok fs ∧
        fs ~ (pinnedSet.fragments.filter fun f => !cleared.contains f.marker) ∧
        Supplied pinnedVersions fs cleared updatedText put ∧ (put.map (·.1)).Sublist fs ∧
        (solids cleared).Sublist (solids outdatedText) ∧
        (solids cleared).Sublist (solids updatedText) ∧
        solids updatedText ++ solids gone ~
          solids outdatedText ++ solids (put.flatMap (·.2)) := by
  have hedit : (edit pinnedSet pinnedVersions outdatedStates outdatedText).2 =
      .ok updatedText := by
    have hfragments : pinnedSet.fragments = [pinned] := rfl
    generalize pinnedSet = set at hfragments
    unfold pinned at hfragments
    repeat rw [String.toText_ofList] at hfragments
    unfold pinnedVersions outdatedStates pinned outdatedText updatedText
    repeat rw [String.toText_append]
    repeat rw [String.toText_ofList]
    rw [edit, stale, hfragments]
    simp only [complete, missingMarkers, FragmentSet.insertionOrder, FragmentSet.markers,
      hfragments]
    exact eq_ok_of_toOption (by decide)
  refine ⟨?_, hedit, edit_preserves hedit⟩
  unfold outdatedText pinnedSet pinned pinnedVersions outdatedStates
  repeat rw [String.toText_append]
  repeat rw [String.toText_ofList]
  exact eq_ok_of_toOption (by decide)

/-! ### A fragment that is not put in -/

/-- A fragment whose template holds the marker and the body of another one. -/
def carrier : Fragment where
  marker := "// a".toText
  template := "x 'y'\n// b\nz 'w'".toText
  anchor := .endOfFile
  required := ["x 'y'".toText]

/-- The other one. -/
def carried : Fragment where
  marker := "// b".toText
  template := "z 'w'".toText
  anchor := .endOfFile

/-- The set of both. -/
def carrierSet : FragmentSet := ⟨[carrier, carried], Fragment.checkAll_eq_ok (by decide)⟩

/-- How they stand in an empty text. -/
def carrierStates : Table Standing := [(carrier.marker, .absent), (carried.marker, .absent)]

/-- What comes of an empty text. -/
def carrierText : Text := "// a\nx 'y'\n// b\nz 'w'\n".toText

/-- A fragment whose marker was missing need not be put in: one put in before it can bring the
marker in, and then the text is not split to take the characters of the fragment. -/
theorem missing_not_put : standings [] carrierSet.fragments ⟨[], []⟩ = .ok carrierStates ∧
    (edit carrierSet ⟨[], []⟩ carrierStates []).2 = .ok carrierText ∧
    carrierSet.insertionOrder (missingMarkers carrierSet []) = .ok [carrier, carried] ∧
    insert [] carrier ⟨[], []⟩ = .ok carrierText ∧
    insert carrierText carried ⟨[], []⟩ = .ok carrierText ∧
    ¬ ∃ rendered, carried.render ⟨[], []⟩ = .ok rendered ∧
      carried.anchor.Parts carrierText rendered carrierText := by
  refine ⟨eq_ok_of_toOption (by decide), eq_ok_of_toOption (by decide),
    eq_ok_of_toOption (by decide), eq_ok_of_toOption (by decide),
    eq_ok_of_toOption (by decide), ?_⟩
  rintro ⟨rendered, hr, before, after, hsplit, -, hsolids⟩
  -- the marker would be in the text once more than it is
  obtain ⟨body, -, rfl⟩ := exists_of_map_eq_ok hr
  have hlength := congrArg List.length hsolids
  have hmarker : (solids carried.marker).length = 3 := by decide
  rw [hsplit] at hlength
  simp only [solids_append, List.length_append] at hlength
  omega

end Plan

end Graft
