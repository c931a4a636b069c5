import Graft.Proofs.Edit.Anchors
import Graft.Proofs.Edit.Gaps
import Graft.Proofs.Edit.Verdict
import Graft.Proofs.Text.SolidLines

/-!
# From one version to the next

A text that was patched is patched again, with other versions. What is stale is taken out and put in
again; a fragment whose lines are the same with both versions stays. So there are four cases, and in
each of them the text that comes out differs from the one that went in by the versions, and by the
blanks that the removal and the insertion leave between the dependencies and what the block holds
after them.

That is the invariant. A text that can be patched is a `Host`: what stands behind the brace of its
header starts and ends with something that is not blank, its `core`. All that the runs make of it has
the shape `hosted V t brace b core`, with the versions `V` and a gap `b` (`Text.IsGap`), and whichever
gap it is, the lines are the same, blanks apart (`Host.solidLines_hosted`). The gap is not what it was
because an insertion pushes down what shares a line with the header, and a removal takes line feeds
with it that were there before.

- When the dependencies are taken out, the brace of the header is left at the end of its line, and
  that header is found again (`Host.blockBrace?_eq`): with the resolution, no header of the name comes
  in (`headless_resolutionText`).
- When the resolution is taken out, blanks are left at the end, and these are trimmed when it is put
  in again.

> `exists_host_of_outcome`: if the first patch does not fail, the text is a host, with any versions.
> `Host.exists_edit`: what is taken out and put in again leaves a hosted text.
> `Host.exists_plan_hosted`: the plan for a hosted text is to host it with the other versions.
-/

namespace Graft

open Text

namespace Defaults

open ScanState Insertion Declaration

variable {V W : VersionSet} {t b core x z : Text} {brace : Nat}

/-! ## Hosts -/

/-- A text that the fragments can be put into, and what it holds behind the brace of the header, but
for blanks. -/
structure Host (t : Text) (brace : Nat) (core : Text) : Prop where
  balanced : balance t = .ok ()
  unmarked : Unmarked t
  chosen : blockBrace? t "dependencies".toText = some brace
  indented : (innerMargin t brace).all isIndent = true
  around : ∃ a z, t.drop (brace + 1) = a ++ (core ++ z) ∧ allBlank a = true ∧ allBlank z = true
  starts : ∃ c r, core = c :: r ∧ isBlank c = false
  ends : ∃ c, core.getLast? = some c ∧ isBlank c = false

/-- There is something behind the brace, and it starts and ends with no blank. -/
theorem exists_host (hbalance : balance t = .ok ()) (ht : Unmarked t)
    (hbrace : blockBrace? t "dependencies".toText = some brace)
    (hmargin : (innerMargin t brace).all isIndent = true) : ∃ core, Host t brace core := by
  have hbehind := allBlank_behind hbalance (mem_braces_of_blockBrace? hbrace)
  have hsplit := List.takeWhile_append_dropWhile (p := isBlank) (l := t.drop (brace + 1))
  have ha : allBlank ((t.drop (brace + 1)).takeWhile isBlank) = true := List.all_takeWhile
  have hnot := List.head?_dropWhile_not (p := isBlank) (l := t.drop (brace + 1))
  cases hdrop : (t.drop (brace + 1)).dropWhile isBlank with
  | nil =>
    rw [hdrop, List.append_nil] at hsplit
    rw [hsplit, hbehind] at ha
    cases ha
  | cons c r =>
    rw [hdrop] at hsplit hnot
    have hc : isBlank c = false := by simpa using hnot
    obtain ⟨z, hz, hblank⟩ := exists_trimRight_append (c :: r)
    have hcore := trimRight_cons hc r
    refine ⟨trimRight (c :: r), hbalance, ht, hbrace, hmargin, ⟨_, z, ?_, ha, hblank⟩,
      ⟨c, _, hcore, hc⟩, ?_⟩
    · rw [← hz, hsplit]
    · obtain ⟨e, he⟩ : ∃ e, (trimRight (c :: r)).getLast? = some e := by
        rw [hcore]
        exact ⟨_, List.getLast?_eq_some_getLast (List.cons_ne_nil _ _)⟩
      exact ⟨e, he, isBlank_of_getLast?_trimRight he⟩

namespace Host

theorem mem_braces (h : Host t brace core) : ⟨brace, .opening⟩ ∈ braces t :=
  mem_braces_of_blockBrace? h.chosen

/-- What precedes the text behind the brace ends with it. -/
theorem exists_take_eq (h : Host t brace core) :
    ∃ p, t.take (brace + 1) = p ++ [.char '{'] ∧ p.length = brace := by
  obtain ⟨hlt, hget⟩ := List.getElem?_eq_some_iff.1 (getElem?_of_mem_braces h.mem_braces)
  refine ⟨t.take brace, ?_, by rw [List.length_take]; omega⟩
  rw [List.take_succ_eq_append_getElem hlt]
  rw [show t[brace] = .char '{' from hget]

theorem length_take (h : Host t brace core) : (t.take (brace + 1)).length = brace + 1 := by
  obtain ⟨p, hp, rfl⟩ := h.exists_take_eq
  rw [hp, List.length_append]
  rfl

theorem unmarked_before (h : Host t brace core) : Unmarked (t.take (brace + 1)) :=
  h.unmarked.of_isInfix (List.take_prefix _ _).isInfix

theorem core_infix (h : Host t brace core) : core <:+: t := by
  obtain ⟨a, z, hdrop, -⟩ := h.around
  have hin : core <:+: t.drop (brace + 1) := ⟨a, z, by rw [hdrop, List.append_assoc]⟩
  exact hin.trans (List.drop_suffix _ _).isInfix

theorem unmarked_core (h : Host t brace core) : Unmarked core :=
  h.unmarked.of_isInfix h.core_infix

/-- Between blanks there is still no marker. -/
theorem unmarked_blanks (h : Host t brace core) (hb : allBlank b = true) : Unmarked (b ++ core) :=
  h.unmarked_core.append (not_mem_of_allBlank (by decide) hb)

theorem search_resolutionMarker (h : Host t brace core) (hV : Fills V) {y : Text}
    (hy : Unmarked y) :
    search resolutionMarker (withDependencies V (t.take (brace + 1)) (innerMargin t brace) y) =
      none := by
  rw [Defaults.search_resolutionMarker hV h.unmarked_before (slash_not_mem_innerMargin t brace),
    hy.search_eq_none resolutionMarker_mem]
  rfl

theorem trimRight_eq (h : Host t brace core) (hz : allBlank z = true) :
    trimRight (b ++ (core ++ z)) = b ++ core := by
  obtain ⟨c, hlast, hc⟩ := h.ends
  have hboth : (b ++ core).getLast? = some c := by
    rw [List.getLast?_append, hlast]
    rfl
  rw [← List.append_assoc, trimRight_append_blanks hz, trimRight_eq_self hboth hc]

end Host

/-! ## Hosted texts -/

theorem withResolution_append (V : VersionSet) (u v : Text) :
    withResolution V (u ++ v) = u ++ withResolution V v :=
  List.append_assoc ..

/-- A text with both fragments in it and a gap between the dependencies and what the text has there. -/
def hosted (V : VersionSet) (t : Text) (brace : Nat) (b core : Text) : Text :=
  withDependencies V (t.take (brace + 1)) (innerMargin t brace) (withResolution V (b ++ core))

namespace Host

/-- With any gap, the text is valid. -/
theorem valid_hosted (h : Host t brace core) (hV : Fills V) (hb : IsGap b) :
    Plan.Valid fragmentSet V (hosted V t brace b core) := by
  have hblank := hb.void.allBlank
  obtain ⟨c, r, hcore, hc⟩ := h.starts
  obtain ⟨a, z, hdrop, ha, hz⟩ := h.around
  have hkinds : start.kinds (b ++ core) [] = start.kinds (t.drop (brace + 1)) [] := by
    rw [hdrop, kinds_start_blanks hblank, kinds_start_blanks ha,
      kinds_append_blanks isProper_start hz]
  have hinert : Inert (b ++ core) := by
    obtain ⟨d, s, rfl⟩ := List.exists_cons_of_ne_nil (List.ne_nil_of_mem hb.feed)
    exact inert_of_isBlank (List.all_eq_true.1 hblank d List.mem_cons_self) _
  exact valid_withDependencies hV h.balanced h.mem_braces h.indented h.unmarked_before
    (h.unmarked_blanks hblank) (hb.opensIndented core) hinert hkinds

/-- It has no carriage returns if the text has none. -/
theorem return_not_mem_hosted (h : Host t brace core) (hV : Fills V) (hb : IsGap b)
    (ht : .char '\r' ∉ t) :
    .char '\r' ∉ hosted V t brace b core := by
  refine return_not_mem_withDependencies hV (fun hmem => ht ((List.take_sublist _ _).subset hmem))
    (not_mem_of_isIndent (by decide) h.indented) ?_
  rw [List.mem_append, not_or]
  exact ⟨hb.void.return_not_mem, fun hmem => ht (h.core_infix.subset hmem)⟩

/-- Which gap it is does not matter for the lines, blanks apart. -/
theorem solidLines_hosted (hb : IsGap b) (V : VersionSet) (t : Text) (brace : Nat) (core : Text) :
    solidLines (hosted V t brace b core) =
      solidLines (withDependencies V (t.take (brace + 1)) (innerMargin t brace) []) ++
        solidLines (withResolution V core) := by
  obtain ⟨i, r, rfl, hi, hr⟩ := hb.exists_eq
  have hsplit : withResolution V ((i ++ .char '\n' :: r) ++ core) =
      i ++ .char '\n' :: (r ++ withResolution V core) := by simp [withResolution]
  rw [hosted, hsplit, ← List.nil_append (i ++ _), withDependencies_append, ← List.append_assoc,
    solidLines_append, solidLines_append_blanks (allBlank_of_isIndent hi),
    solidLines_blanks_append hr.allBlank]

end Host

/-- **A text that can be patched is a host.** If the first patch makes it valid with some versions, it
hosts the fragments with any versions, and always with the same gap. -/
theorem exists_hosted_patchedText (hV : Fills V) (hbalance : balance t = .ok ()) (ht : Unmarked t)
    (hbrace : blockBrace? t "dependencies".toText = some brace) (hreturn : .char '\r' ∉ t)
    (hvalid : Plan.Valid fragmentSet V (patchedText V t brace)) :
    ∃ core b, Host t brace core ∧ IsGap b ∧ ∀ W, patchedText W t brace = hosted W t brace b core := by
  obtain ⟨hmargin, hopens, -⟩ := dependencies_of_missingTexts hV hV (ht.around brace).1
    (allBlank_innerMargin t brace) (lineFeed_not_mem_innerMargin t brace)
    (hvalid.complete dependencies dependencies_mem)
  obtain ⟨core, h⟩ := exists_host hbalance ht hbrace hmargin
  obtain ⟨c, r, hcore, hc⟩ := h.starts
  obtain ⟨a, z, hdrop, ha, hz⟩ := h.around
  have hvoid : IsVoid a := by
    intro d hd
    refine ⟨List.all_eq_true.1 ha d hd, ?_⟩
    rintro rfl
    apply hreturn
    apply List.mem_of_mem_drop
    rw [hdrop]
    exact List.mem_append_left _ hd
  obtain ⟨b, hb, hfeed, hpushed⟩ := exists_pushed_eq (isVoid_of_isIndent hmargin) hvoid hc (r ++ z)
  have htrim : trimRight (pushed (innerMargin t brace) (t.drop (brace + 1))) = b ++ core := by
    have hsplit : a ++ c :: (r ++ z) = t.drop (brace + 1) := by
      rw [hdrop, hcore]
      rfl
    rw [← hsplit, hpushed, ← List.cons_append, ← hcore, h.trimRight_eq hz]
  rw [htrim] at hopens
  refine ⟨core, b, h, ⟨hb, hopens.of_append.of_append, hfeed⟩, fun W => ?_⟩
  rw [patchedText, htrim, hosted]

/-! ## Taking out -/

/-- The dependencies are taken out with their lines, and blanks are left in their place. -/
theorem Host.exists_remove_dependencies (h : Host t brace core) (hV : Fills V) (hb : IsGap b)
    (hz : search dependencyMarker (core ++ z) = none) : ∃ b', IsVoid b' ∧
      remove (withDependencies V (t.take (brace + 1)) (innerMargin t brace) (b ++ (core ++ z)))
          dependencies = .ok (t.take (brace + 1) ++ .char '\n' :: (b' ++ (core ++ z))) := by
  obtain ⟨c, r, rfl, hc⟩ := h.starts
  obtain ⟨p, hp, -⟩ := h.exists_take_eq
  have hslash := slash_not_mem_innerMargin t brace
  have hsearch := search_dependencyMarker h.unmarked_before hslash V (b ++ (c :: r ++ z))
  have hblock : .char '/' ∉ (.char '\n' :: dependencyBlock V (innerMargin t brace)) ++ b := by
    have hgap := not_mem_of_allBlank (c := .char '/') (by decide) hb.void.allBlank
    simp [slash_not_mem_dependencyBlock hV hslash, hgap]
  have hmargin := h.indented
  have hlaid := laid_dependencies hV hmargin
  generalize innerMargin t brace = margin at hsearch hblock hmargin hlaid ⊢
  have hsplit : withDependencies V (p ++ [.char '{']) margin (b ++ (c :: r ++ z)) =
      ((p ++ [.char '{', .char '\n']) ++ margin) ++ (dependencies.marker ++
        ((.char '\n' :: dependencyBlock V margin) ++ (b ++ c :: (r ++ z)))) := by
    show _ = _ ++ (dependencyMarker ++ _)
    simp [withDependencies]
  have hfirst : (p ++ [CodePoint.char '{'] ++ CodePoint.char '\n' :: margin).length =
      ((p ++ [CodePoint.char '{', CodePoint.char '\n']) ++ margin).length := by
    simp
  have honce := search_append_eq_none dependencyMarker_mem hblock hz
  rw [List.append_assoc] at honce
  rw [hp, hsplit, hfirst] at hsearch
  obtain ⟨b', hsub, hremove⟩ := Placed.exists_remove_below
    ⟨hlaid, hb.opensIndented _, hsearch, honce⟩
    (fragmentSet.lineFeed_not_mem_marker dependencies_mem) dependencyMarker_ne_nil (by decide)
    hmargin hc
  refine ⟨b', hb.void.subset hsub, ?_⟩
  rw [hp, hsplit, hremove]
  simp

theorem Host.exists_remove_hosted (h : Host t brace core) (hV : Fills V) (hb : IsGap b) :
    ∃ b', IsVoid b' ∧ remove (hosted V t brace b core) dependencies =
      .ok (withResolution V (t.take (brace + 1) ++ .char '\n' :: (b' ++ core))) := by
  have hnone := search_dependencyMarker_withResolution hV
    (h.unmarked_core.search_eq_none dependencyMarker_mem)
  obtain ⟨b', hb', hremove⟩ := h.exists_remove_dependencies hV hb hnone
  refine ⟨b', hb', ?_⟩
  rw [hosted, withResolution_append]
  refine hremove.trans ?_
  simp [withResolution]

/-- The resolution is taken out of the end of a text, and blanks are left. -/
theorem exists_remove_resolution (hV : Fills V) (hx : search resolutionMarker x = none) :
    ∃ e, IsVoid e ∧ remove (withResolution V x) resolution = .ok (x ++ e) := by
  have hm := resolutionMarker_mem
  have hsearch := search_withResolution V hx
  have hbody : .char '/' ∉ .char '\n' :: resolutionBody V ++ [.char '\n'] := by
    have hslash := slash_not_mem_resolutionBody hV
    simp [hslash]
  have hsplit : withResolution V x = (x ++ [.char '\n', .char '\n']) ++
      (resolution.marker ++ ((.char '\n' :: resolutionBody V) ++ [.char '\n'])) := by
    show _ = _ ++ (resolutionMarker ++ _)
    rw [withResolution_eq, resolutionText, List.append_assoc resolutionMarker]
  rw [hsplit] at hsearch ⊢
  have hplaced : Placed resolution (x ++ [.char '\n', .char '\n'])
      (.char '\n' :: resolutionBody V) [.char '\n'] :=
    ⟨laid_resolution hV, rfl, hsearch, (unmarked_of_not_mem hbody).search_eq_none hm⟩
  exact hplaced.exists_remove_atEnd (fragmentSet.lineFeed_not_mem_marker resolution_mem)
    resolutionMarker_ne_nil

/-! ## Putting in again -/

/-- No header of the dependencies comes in with the resolution. -/
theorem headless_resolutionText (h : Fills V) :
    Headless "dependencies".toText ([.char '\n', .char '\n'] ++ resolutionText V) := by
  have hfront : Headless "dependencies".toText
      ([.char '\n', .char '\n'] ++ (resolutionMarker ++ .char '\n' :: resolutionStart)) := by
    have hlast : "dependencies".toText.getLast? = some (.char 's') := by
      rw [String.toText_ofList]
      rfl
    apply headless_of_forall hlast (by decide)
    have hall : ∀ n < ([CodePoint.char '\n', .char '\n'] ++
          (resolutionMarker ++ .char '\n' :: resolutionStart)).length,
        ([.char '\n', .char '\n'] ++ (resolutionMarker ++ .char '\n' :: resolutionStart))[n]? =
          some (.char '{') →
        (trimRight (([CodePoint.char '\n', .char '\n'] ++
            (resolutionMarker ++ .char '\n' :: resolutionStart)).take n)).getLast?.any
          (· != .char 's') = true := by
      unfold resolutionMarker resolutionStart
      repeat rw [String.toText_append]
      repeat rw [String.toText_ofList]
      decide +kernel
    intro n hn
    have hany := hall n (List.getElem?_eq_some_iff.1 hn).1 hn
    obtain ⟨e, he, hne⟩ := (Option.any_eq_true _ _).1 hany
    exact ⟨e, he, bne_iff_ne.1 hne⟩
  have hback : .char '{' ∉ valueOf V "androidx_core".toText ++ (resolutionEnd ++ [.char '\n']) := by
    have hend : .char '{' ∉ resolutionEnd ++ [.char '\n'] := by
      unfold resolutionEnd
      rw [String.toText_ofList]
      decide
    rw [List.mem_append, not_or]
    exact ⟨not_mem_of_all (by decide) (h.valueOf core_mem_keys).2.2, hend⟩
  have hall := hfront.append hback
  rwa [List.append_assoc, ← resolutionText_eq] at hall

namespace Host

/-- The header is found again, whatever blanks come in behind its brace and whatever without headers
comes in behind the text there. -/
theorem blockBrace?_eq (h : Host t brace core) (hb : allBlank b = true) (hz : Inert z)
    (hheadless : Headless "dependencies".toText z) :
    blockBrace? (t.take (brace + 1) ++ .char '\n' :: (b ++ (core ++ z))) "dependencies".toText =
      some brace := by
  have hname : "dependencies".toText = .char 'd' :: "ependencies".toText := by
    repeat rw [String.toText_ofList]
    rfl
  have hbrace : .char '{' ∉ "dependencies".toText := by
    rw [String.toText_ofList]
    decide
  obtain ⟨p, hp, rfl⟩ := h.exists_take_eq
  obtain ⟨a, z', hdrop, ha, hz'⟩ := h.around
  have ht : t = p ++ .char '{' :: (a ++ (core ++ z')) := by
    have hsplit := List.take_append_drop (p.length + 1) t
    rw [hp, hdrop] at hsplit
    rw [← hsplit]
    simp
  have hmem := h.mem_braces
  have hchosen := h.chosen
  rw [ht] at hmem hchosen
  rw [hp, List.append_assoc]
  show blockBrace? (p ++ .char '{' :: (.char '\n' :: b ++ (core ++ z))) _ = _
  refine blockBrace?_append hbrace hmem hchosen fun k hk => ?_
  rw [hname] at hk hheadless ⊢
  exact hk.exists_between (by decide) hb ha hz (inert_of_allBlank hz') hheadless

/-- The margin is that of the header. -/
theorem innerMargin_eq (h : Host t brace core) (u : Text) :
    innerMargin (t.take (brace + 1) ++ u) brace = innerMargin t brace := by
  have hlength : brace ≤ (t.take (brace + 1)).length := by
    rw [h.length_take]
    exact Nat.le_succ _
  have htake : (t.take (brace + 1) ++ u).take brace = t.take brace := by
    rw [List.take_append_of_le_length hlength, List.take_take, Nat.min_eq_left (Nat.le_succ _)]
  unfold innerMargin slice Text.lineStart
  rw [htake]

/-- The dependencies are put in again where they were, and again there is a gap. -/
theorem exists_insert_dependencies (h : Host t brace core) (hW : Fills W) (hb : IsVoid b)
    (hz : Inert z) (hheadless : Headless "dependencies".toText z)
    (hsearch : search dependencyMarker (core ++ z) = none) : ∃ b', IsGap b' ∧
      insert (t.take (brace + 1) ++ .char '\n' :: (b ++ (core ++ z))) dependencies W =
        .ok (withDependencies W (t.take (brace + 1)) (innerMargin t brace) (b' ++ (core ++ z))) := by
  have hcontains : Text.contains (t.take (brace + 1) ++ .char '\n' :: (b ++ (core ++ z)))
      dependencyMarker = false := by
    rw [contains_eq_false_iff, search_beyond dependencyMarker_mem
      (h.unmarked_before.search_eq_none dependencyMarker_mem)
      (not_mem_of_allBlank (by decide) hb.allBlank), hsearch]
    rfl
  have hinsert := insert_dependencies hW hcontains (h.blockBrace?_eq hb.allBlank hz hheadless)
  rw [h.innerMargin_eq, List.take_left' h.length_take, List.drop_left' h.length_take] at hinsert
  obtain ⟨c, r, rfl, hc⟩ := h.starts
  have hmargin : IsVoid (innerMargin t brace) := isVoid_of_isIndent h.indented
  obtain ⟨b', hvoid, hfeed, hpushed⟩ :=
    exists_pushed_eq hmargin hb.cons_lineFeed hc (r ++ z)
  have hopens : OpensIndented (b' ++ c :: (r ++ z)) := by
    rw [← hpushed]
    apply opensIndented_pushed
    exact fun _ => rfl
  refine ⟨b', ⟨hvoid, hopens.of_append, hfeed⟩, ?_⟩
  rw [hinsert]
  exact congrArg (fun y => Except.ok (withDependencies W _ _ y)) hpushed

end Host

/-! ## What is stale -/

theorem withDependencies_congr (h : dependencyLines V = dependencyLines W)
    (before margin behind : Text) : withDependencies V before margin behind =
      withDependencies W before margin behind := by
  rw [withDependencies, dependencyBlock, h]
  rfl

theorem withResolution_congr (h : resolutionBody V = resolutionBody W) (t : Text) :
    withResolution V t = withResolution W t := by
  rw [withResolution, resolutionText, h]
  rfl

theorem exists_requiredTexts (hW : Fills W) : ∀ f ∈ fragmentSet.fragments,
    ∃ required, f.requiredTexts W = .ok required := by
  intro f hf
  rcases List.mem_cons.1 hf with rfl | hf
  · exact ⟨_, requiredTexts_dependencies hW⟩
  · rw [List.mem_singleton.1 hf]
    obtain ⟨required, hrequired, -⟩ := exists_requiredTexts_resolution hW
    exact ⟨required, hrequired⟩

namespace Host

/-- The dependencies are stale, or they are the same with the other versions. -/
theorem dependencies_cases (h : Host t brace core) (hV : Fills V) (hW : Fills W) (hb : IsGap b) :
    standing (hosted V t brace b core) dependencies W = .ok .stale ∨
      standing (hosted V t brace b core) dependencies W = .ok .correct ∧
        dependencyLines V = dependencyLines W := by
  obtain ⟨required, hrequired⟩ := exists_requiredTexts hW dependencies dependencies_mem
  have honce := (h.valid_hosted hV hb).once dependencies dependencies_mem
  rcases standing_cases honce hrequired with hstale | ⟨hcorrect, hmissing⟩
  · exact .inl hstale
  · have hfeed : .char '\n' ∉ innerMargin t brace := not_mem_of_isIndent (by decide) h.indented
    exact .inr ⟨hcorrect, (dependencies_of_missingTexts hV hW h.unmarked_before
      (allBlank_of_isIndent h.indented) hfeed hmissing).2.2⟩

/-- So is the resolution. -/
theorem resolution_cases (h : Host t brace core) (hV : Fills V) (hW : Fills W) (hb : IsGap b) :
    standing (hosted V t brace b core) resolution W = .ok .stale ∨
      standing (hosted V t brace b core) resolution W = .ok .correct ∧
        resolutionBody V = resolutionBody W := by
  obtain ⟨required, hrequired⟩ := exists_requiredTexts hW resolution resolution_mem
  have honce := (h.valid_hosted hV hb).once resolution resolution_mem
  rcases standing_cases honce hrequired with hstale | ⟨hcorrect, hmissing⟩
  · exact .inl hstale
  · have hnone := h.search_resolutionMarker hV (h.unmarked_blanks hb.void.allBlank)
    rw [hosted, withDependencies_withResolution] at hmissing
    exact .inr ⟨hcorrect, resolution_of_missingTexts hV hW hnone hmissing⟩

end Host

/-! ## Completing what is left -/

/-- The fragments that are put in are those whose markers are gone. -/
theorem complete_eq_insertAll {d r : Bool} (hd : Text.contains x dependencyMarker = d)
    (hr : Text.contains x resolutionMarker = r) : Plan.complete fragmentSet W x =
      Plan.insertAll W x ((if d then [] else [dependencies]) ++ if r then [] else [resolution]) := by
  have hd' : Text.contains x dependencies.marker = d := hd
  have hr' : Text.contains x resolution.marker = r := hr
  rw [complete_eq, List.filter_cons, List.filter_cons, List.filter_nil, hd', hr']
  cases d <;> cases r <;> rfl

namespace Host

theorem search_eq_none (h : Host t brace core) {m : Text} (hm : m ∈ fragmentSet.markers)
    (hb : allBlank b = true) :
    search m (t.take (brace + 1) ++ .char '\n' :: (b ++ core)) = none := by
  rw [search_beyond hm (h.unmarked_before.search_eq_none hm) (not_mem_of_allBlank (by decide) hb),
    h.unmarked_core.search_eq_none hm]
  rfl

/-- A marker is in what stands below the header, or nowhere. -/
theorem contains_eq (h : Host t brace core) {m : Text} (hm : m ∈ fragmentSet.markers)
    (hb : allBlank b = true) (y : Text) :
    Text.contains (t.take (brace + 1) ++ .char '\n' :: (b ++ y)) m = Text.contains y m := by
  rw [Text.contains, Text.contains, search_beyond hm (h.unmarked_before.search_eq_none hm)
    (not_mem_of_allBlank (by decide) hb), Option.isSome_map]

/-- What is put in when both fragments are gone. -/
theorem exists_complete (h : Host t brace core) (hW : Fills W) (hb : IsVoid b) (hz : IsVoid z) :
    ∃ b', IsGap b' ∧ (Plan.complete fragmentSet W
      (t.take (brace + 1) ++ .char '\n' :: (b ++ (core ++ z)))).2 =
        .ok (hosted W t brace b' core) := by
  have hbehind := h.unmarked_core.append_blanks hz.allBlank
  obtain ⟨b', hb', hinsert⟩ := h.exists_insert_dependencies hW hb (inert_of_allBlank hz.allBlank)
    (headless_of_not_mem (not_mem_of_allBlank (by decide) hz.allBlank) _)
    (hbehind.search_eq_none dependencyMarker_mem)
  have hinsert' := insert_resolution hW h.unmarked_before (slash_not_mem_innerMargin t brace)
    (hbehind.append (not_mem_of_allBlank (by decide) hb'.void.allBlank))
  rw [h.trimRight_eq hz.allBlank] at hinsert'
  refine ⟨b', hb', ?_⟩
  have hd := h.contains_eq dependencyMarker_mem hb.allBlank (core ++ z)
  have hr := h.contains_eq resolutionMarker_mem hb.allBlank (core ++ z)
  rw [hbehind _ dependencyMarker_mem] at hd
  rw [hbehind _ resolutionMarker_mem] at hr
  rw [complete_eq_insertAll hd hr]
  exact (Plan.insertAll_cons hinsert _).trans (Plan.insertAll_cons hinsert' _)

/-- What is put in when the dependencies are gone. -/
theorem exists_complete_dependencies (h : Host t brace core) (hW : Fills W) (hb : IsVoid b) :
    ∃ b', IsGap b' ∧ (Plan.complete fragmentSet W
      (t.take (brace + 1) ++ .char '\n' :: (b ++ withResolution W core))).2 =
        .ok (hosted W t brace b' core) := by
  have hnone := search_dependencyMarker_withResolution hW
    (h.unmarked_core.search_eq_none dependencyMarker_mem)
  obtain ⟨b', hb', hinsert⟩ := h.exists_insert_dependencies hW hb (inert_of_isBlank (by decide) _)
    (headless_resolutionText hW) hnone
  refine ⟨b', hb', ?_⟩
  have hd := h.contains_eq dependencyMarker_mem hb.allBlank (withResolution W core)
  have hr := h.contains_eq resolutionMarker_mem hb.allBlank (withResolution W core)
  rw [contains_eq_false_iff.2 hnone] at hd
  rw [Text.contains, Text.contains, search_withResolution W
    (h.unmarked_core.search_eq_none resolutionMarker_mem)] at hr
  rw [complete_eq_insertAll hd hr, hosted, withResolution_append]
  exact Plan.insertAll_cons hinsert _

/-- What is put in when the resolution is gone. -/
theorem complete_resolution (h : Host t brace core) (hW : Fills W) (hb : IsGap b) (hz : IsVoid z) :
    (Plan.complete fragmentSet W (withDependencies W (t.take (brace + 1)) (innerMargin t brace)
      (b ++ (core ++ z)))).2 = .ok (hosted W t brace b core) := by
  have hslash := slash_not_mem_innerMargin t brace
  have hbehind := (h.unmarked_core.append_blanks hz.allBlank).append
    (not_mem_of_allBlank (by decide) hb.void.allBlank)
  have hinsert := insert_resolution hW h.unmarked_before hslash hbehind
  rw [h.trimRight_eq hz.allBlank] at hinsert
  have hd : Text.contains (withDependencies W (t.take (brace + 1)) (innerMargin t brace)
      (b ++ (core ++ z))) dependencyMarker = true := by
    rw [Text.contains, search_dependencyMarker h.unmarked_before hslash]
    rfl
  have hr := contains_eq_false_iff.2 (h.search_resolutionMarker hW hbehind)
  rw [complete_eq_insertAll hd hr]
  exact Plan.insertAll_cons hinsert _

/-! ## The plan -/

/-- What is stale is taken out and put in again, with the other versions and perhaps another gap. -/
theorem exists_edit (h : Host t brace core) (hV : Fills V) (hW : Fills W) (hb : IsGap b)
    {states : Table Standing}
    (hstates : standings (hosted V t brace b core) fragmentSet.fragments W = .ok states) :
    ∃ b', IsGap b' ∧ (Plan.edit fragmentSet W states (hosted V t brace b core)).2 =
      .ok (hosted W t brace b' core) := by
  have hstale : Plan.stale fragmentSet states =
      [dependencies, resolution].filter fun f => states.get? f.marker == some .stale := rfl
  obtain ⟨d, hd, hgetd⟩ := get?_standings hstates dependencies_mem
  obtain ⟨r, hr, hgetr⟩ := get?_standings hstates resolution_mem
  rw [List.filter_cons, List.filter_cons, List.filter_nil, hgetd, hgetr] at hstale
  -- a fragment that is not stale is the one that would be put in
  rcases h.dependencies_cases hV hW hb with hd' | ⟨hd', hlines⟩
  · obtain rfl : d = .stale := Except.ok.inj (hd.symm.trans hd')
    obtain ⟨b', hb', hremove⟩ := h.exists_remove_hosted hV hb
    rcases h.resolution_cases hV hW hb with hr' | ⟨hr', hbody⟩
    · obtain rfl : r = .stale := Except.ok.inj (hr.symm.trans hr')
      obtain ⟨e, he, hremove'⟩ := exists_remove_resolution hV
        (h.search_eq_none resolutionMarker_mem hb'.allBlank)
      have hleft : (Plan.removeAll (hosted V t brace b core) (Plan.stale fragmentSet states)).2 =
          .ok ((t.take (brace + 1) ++ .char '\n' :: (b' ++ core)) ++ e) := by
        rw [hstale]
        exact (Plan.removeAll_cons hremove _).trans (Plan.removeAll_cons hremove' _)
      rw [Plan.edit_of_removeAll hleft]
      have hcomplete := h.exists_complete hW hb' he
      simpa using hcomplete
    · obtain rfl : r = .correct := Except.ok.inj (hr.symm.trans hr')
      have hleft : (Plan.removeAll (hosted V t brace b core) (Plan.stale fragmentSet states)).2 =
          .ok (t.take (brace + 1) ++ .char '\n' :: (b' ++ withResolution W core)) := by
        rw [hstale, ← withResolution_congr hbody]
        refine (Plan.removeAll_cons hremove _).trans ?_
        simp [Plan.removeAll, withResolution]
      rw [Plan.edit_of_removeAll hleft]
      exact h.exists_complete_dependencies hW hb'
  · obtain rfl : d = .correct := Except.ok.inj (hd.symm.trans hd')
    refine ⟨b, hb, ?_⟩
    have hwith : hosted V t brace b core = withResolution V (withDependencies W
        (t.take (brace + 1)) (innerMargin t brace) (b ++ core)) := by
      rw [hosted, withDependencies_withResolution, withDependencies_congr hlines]
    rcases h.resolution_cases hV hW hb with hr' | ⟨hr', hbody⟩
    · obtain rfl : r = .stale := Except.ok.inj (hr.symm.trans hr')
      obtain ⟨e, he, hremove⟩ := exists_remove_resolution hV
        (h.search_resolutionMarker hW (h.unmarked_blanks hb.void.allBlank))
      rw [← hwith, ← withDependencies_append, List.append_assoc] at hremove
      have hleft : (Plan.removeAll (hosted V t brace b core) (Plan.stale fragmentSet states)).2 =
          .ok (withDependencies W (t.take (brace + 1)) (innerMargin t brace) (b ++ (core ++ e))) := by
        rw [hstale]
        exact Plan.removeAll_cons hremove _
      rw [Plan.edit_of_removeAll hleft]
      exact h.complete_resolution hW hb he
    · obtain rfl : r = .correct := Except.ok.inj (hr.symm.trans hr')
      have hleft : (Plan.removeAll (hosted V t brace b core) (Plan.stale fragmentSet states)).2 =
          .ok (hosted W t brace b core) := by
        rw [hstale, hwith, withResolution_congr hbody, ← withDependencies_withResolution]
        rfl
      rw [Plan.edit_of_removeAll hleft,
        Plan.complete_of_nothing (h.valid_hosted hW hb).missingMarkers_eq_nil]

/-- **The plan for a hosted text** is to host it with the other versions, unless this gives the same
text back. -/
theorem exists_plan_hosted (h : Host t brace core) (hV : Fills V) (hW : Fills W) (hb : IsGap b) :
    ∃ plan b', Plan.ofText fragmentSet W (hosted V t brace b core) = .ok plan ∧ IsGap b' ∧
      plan.outcome = .ok (if hosted W t brace b' core = hosted V t brace b core then none
        else some (hosted W t brace b' core)) := by
  obtain ⟨states, hstates⟩ : ∃ states,
      standings (hosted V t brace b core) fragmentSet.fragments W = .ok states := by
    apply exists_standings
    intro f hf
    obtain ⟨required, hrequired⟩ := exists_requiredTexts hW f hf
    rcases standing_cases ((h.valid_hosted hV hb).once f hf) hrequired with hs | ⟨hs, -⟩
    · exact ⟨_, hs⟩
    · exact ⟨_, hs⟩
  obtain ⟨plan, hplan, rfl⟩ : ∃ plan,
      Plan.ofText fragmentSet W (hosted V t brace b core) = .ok plan ∧ plan.states = states := by
    rw [Plan.ofText, (h.valid_hosted hV hb).balanced]
    dsimp only
    rw [hstates]
    exact ⟨_, rfl, rfl⟩
  obtain ⟨b', hb', hedit⟩ := h.exists_edit hV hW hb hstates
  obtain ⟨-, -, -, -, houtcome⟩ := Plan.ofText_eq_ok hplan
  refine ⟨plan, b', hplan, hb', ?_⟩
  rw [houtcome, hedit]
  exact Plan.settle_of_valid (h.valid_hosted hW hb') _

/-- **The plan for the text itself** is to host the fragments. -/
theorem exists_plan_host (h : Host t brace core) (hW : Fills W) (hb : IsGap b)
    (hpatched : patchedText W t brace = hosted W t brace b core) :
    ∃ plan, Plan.ofText fragmentSet W t = .ok plan ∧
      plan.outcome = .ok (if hosted W t brace b core = t then none
        else some (hosted W t brace b core)) := by
  obtain ⟨plan, hplan, -, houtcome⟩ := exists_plan hW h.balanced h.unmarked
  rw [h.chosen] at houtcome
  dsimp only at houtcome
  rw [hpatched, Plan.settle_of_valid (h.valid_hosted hW hb)] at houtcome
  exact ⟨plan, hplan, houtcome⟩

end Host

/-- **A plan that does not fail makes a host of a text without markers.** The fragments are hosted with
any versions then, and always with the same gap. -/
theorem exists_host_of_outcome (hV : Fills V) (ht : Unmarked t)
    (hreturn : .char '\r' ∉ t) {plan : Plan}
    {new : Option Text} (hplan : Plan.ofText fragmentSet V t = .ok plan)
    (houtcome : plan.outcome = .ok new) : ∃ brace core b, Host t brace core ∧ IsGap b ∧
      ∀ W, patchedText W t brace = hosted W t brace b core := by
  obtain ⟨hbalance, -⟩ := Plan.ofText_eq_ok hplan
  obtain ⟨plan', hplan', -, houtcome'⟩ := exists_plan hV hbalance ht
  obtain rfl : plan = plan' := Except.ok.inj (hplan.symm.trans hplan')
  rw [houtcome] at houtcome'
  cases hbrace : blockBrace? t "dependencies".toText with
  | none =>
    rw [hbrace] at houtcome'
    cases houtcome'
  | some brace =>
    rw [hbrace] at houtcome'
    refine ⟨brace, exists_hosted_patchedText hV hbalance ht hbrace hreturn ?_⟩
    cases new with
    | some text =>
      obtain ⟨rfl, -, hvalid⟩ := Plan.settle_eq_some houtcome'.symm
      exact hvalid
    | none =>
      -- a marker comes in, so that the text cannot be as it was
      have hsearch := search_dependencyMarker (ht.around brace).1
        (slash_not_mem_innerMargin t brace) V (withResolution V
          (trimRight (pushed (innerMargin t brace) (t.drop (brace + 1)))))
      rw [show withDependencies V _ _ _ = patchedText V t brace from rfl,
        Plan.settle_eq_none houtcome'.symm, ht.search_eq_none dependencyMarker_mem] at hsearch
      cases hsearch

end Defaults

end Graft
