import Graft.Proofs.Edit.FirstPatch
import Graft.Proofs.Edit.Laying
import Graft.Proofs.Fragment.Recognition

/-!
# Removal undoes insertion

A fragment is `Regular` if its template says what its span will find: its marker is a comment on a
line of its own, only placeholders for plain values come with a dollar sign, and the body is made of
declaration lines, or of those at the head of the template and a block that ends with the body. Then
the body is laid as its span takes it (`Regular.laid`), wherever it is put.

> `remove_insert`: a regular fragment that is put into a text can be taken out again, and nothing is
> left of it but blanks.

The declaration lines have to be those at the head of the template, as only these are looked for, and
the block needs a name, as one without is none.
-/

namespace Graft

open Text

variable {f : Fragment} {versions : VersionSet} {body d t u x z : Text}

namespace Fragment

/-- The declaration lines at the head of a template. -/
def heads (f : Fragment) : List Text :=
  (lines (trimLineFeeds f.template)).takeWhile Declaration.isDeclaration

/-- What the body of a fragment is made of: declaration lines only, or those at the head of the
template and a block whose brace is the partner of the last character. -/
inductive Shape (f : Fragment) (versions : VersionSet) : Text → Prop
  | flat {body : Text} (hblock : f.block = none) (hne : lines (trimLineFeeds f.template) ≠ [])
      (hlines : ∀ l ∈ lines (trimLineFeeds f.template), Declaration.isDeclaration l = true) :
      Shape f versions body
  | block {body name head tail : Text} {filled : List Text} (hblock : f.block = some name)
      (hname : name ≠ [])
      (hfilled : List.Forall₂ (fun l m => Template.fill versions.get? l = .ok m) f.heads filled)
      (hhead : IsHeader name head) (hfeed : .char '\n' ∉ head)
      (hbody : body = filled.flatMap (· ++ [.char '\n']) ++ (head ++ .char '{' :: tail))
      (hclose : closeOf body (filled.flatMap (· ++ [CodePoint.char '\n']) ++ head).length =
        .ok (body.length - 1)) : Shape f versions body

/-- A fragment whose marker is a comment on a line of its own and whose template has dollar signs
only for placeholders with plain values. The body breaks at line feeds only, and the marker is not
in it. -/
structure Legible (f : Fragment) (versions : VersionSet) (body : Text) : Prop where
  comment : ∃ p, f.marker = .char '/' :: .char '/' :: p
  trimmed : trimRight f.marker = f.marker
  oneLine : ∀ c ∈ f.marker, isLineBreak c = false
  sound : Template.IsSound versions.get? f.template
  rendered : f.body versions = .ok body
  lineFeeds : ∀ c ∈ body, isLineBreak c = true → c = .char '\n'
  unmarked : body.contains f.marker = false

/-- A legible fragment whose template says what its span will find. -/
structure Regular (f : Fragment) (versions : VersionSet) (body : Text) : Prop
    extends f.Legible versions body where
  shape : f.Shape versions body

end Fragment

open Fragment

/-! ## What the body is made of -/

/-- The lines of the template, filled one by one, are the body. -/
theorem Fragment.Legible.exists_filled (h : f.Legible versions body) : ∃ ms a b,
    List.Forall₂ (Template.Filled versions.get?) (lines (trimLineFeeds f.template)) ms ∧
      body = trimLineFeeds (a ++ (join [.char '\n'] ms ++ b)) ∧ a.all (· == .char '\n') = true ∧
      b.all (· == .char '\n') = true ∧ ∀ l ∈ lines (trimLineFeeds f.template), .char '\n' ∉ l := by
  obtain ⟨w, hw⟩ := h.sound.exists_filled
  have hbody : body = trimLineFeeds w := by
    have hrendered := h.rendered
    rw [Fragment.body, Fragment.fill, hw.fill] at hrendered
    exact (Except.ok.inj hrendered).symm
  obtain ⟨a, b, htemplate, ha, hb, hlast⟩ := exists_trimLineFeeds f.template
  obtain ⟨a', b', hw', ha', hb', -⟩ := exists_trimLineFeeds w
  -- a line break of the template is one of the filled text, too
  have hbreaks : ∀ c ∈ trimLineFeeds f.template, isLineBreak c = true → c = .char '\n' := by
    intro c hc hbreak
    have hmem : c ∈ w := by
      apply hw.mem (Template.separates_of_isBlank (isBlank_of_isLineBreak hbreak))
      rw [htemplate]
      exact List.mem_append_right _ (List.mem_append_left _ hc)
    rw [hw', List.mem_append, List.mem_append] at hmem
    rcases hmem with hmem | hmem | hmem
    · exact eq_of_beq (List.all_eq_true.1 ha' c hmem)
    · exact h.lineFeeds c (hbody ▸ hmem) hbreak
    · exact eq_of_beq (List.all_eq_true.1 hb' c hmem)
  have hlines : join [.char '\n'] (lines (trimLineFeeds f.template)) = trimLineFeeds f.template ∧
      ∀ l ∈ lines (trimLineFeeds f.template), .char '\n' ∉ l := by
    by_cases hne : trimLineFeeds f.template = []
    · rw [hne]
      exact ⟨rfl, fun l hl => by cases hl⟩
    · rw [lines_eq_splitLines hbreaks hne hlast]
      exact ⟨join_splitLines _, fun l hl => not_mem_of_mem_splitLines hl⟩
  -- the line feeds around the template are still there
  rw [htemplate] at hw
  obtain ⟨v, rfl, hv⟩ := hw.of_append (not_mem_of_allBlank (by decide) (allBlank_of_lineFeeds ha))
  obtain ⟨u, rfl, hu⟩ := hv.of_append_blanks (allBlank_of_lineFeeds hb)
  rw [← hlines.1] at hu
  obtain ⟨ms, hms, rfl⟩ := hu.exists_lines
  exact ⟨ms, a, b, hms, hbody, ha, hb, hlines.2⟩

/-- Filled declaration lines fit their patterns, and they are lines. -/
theorem fits_of_forall₂ {value? : Text → Option Text} {ls ms : List Text}
    (hls : ∀ l ∈ ls, Declaration.isDeclaration l = true ∧ .char '\n' ∉ l)
    (h : List.Forall₂ (Template.Filled value?) ls ms) :
    List.Forall₂ (fun p m => Declaration.fits p m = true) (ls.map Declaration.patternOf) ms ∧
      ∀ m ∈ ms, m ≠ [] ∧ .char '\n' ∉ m := by
  induction h with
  | nil => exact ⟨.nil, by simp⟩
  | @cons l m ls ms hfilled _ ih =>
    obtain ⟨⟨hdeclaration, hfeed⟩, hrest⟩ := List.forall_mem_cons.1 hls
    obtain ⟨hfits, hms⟩ := ih hrest
    have hm := Declaration.fits_of_filled hdeclaration hfeed hfilled
    refine ⟨.cons hm hfits, List.forall_mem_cons.2 ⟨⟨?_, hfilled.not_mem (by decide) hfeed⟩, hms⟩⟩
    obtain ⟨c, part, parts, -, heq⟩ := Declaration.exists_patternOf hdeclaration
    rw [heq] at hm
    exact List.ne_nil_of_mem (Declaration.mem_of_fits hm)

theorem Fragment.Regular.laid_flat (h : f.Regular versions body) (hblock : f.block = none)
    (hne : lines (trimLineFeeds f.template) ≠ [])
    (hlines : ∀ l ∈ lines (trimLineFeeds f.template), Declaration.isDeclaration l = true) :
    Laid f (.char '\n' :: body) := by
  obtain ⟨ms, a, b, hms, hbody, ha, hb, hfeed⟩ := h.exists_filled
  obtain ⟨hfits, hlined⟩ := fits_of_forall₂ (fun l hl => ⟨hlines l hl, hfeed l hl⟩) hms
  have hne' : ms ≠ [] := by
    rintro rfl
    exact hne (List.forall₂_nil_right_iff.1 hms)
  obtain ⟨⟨c, r, hjoin, hc⟩, hlast⟩ := ends_of_join hne' hlined
  have hpatterns : f.patterns = (lines (trimLineFeeds f.template)).map Declaration.patternOf := by
    rw [Fragment.patterns, List.takeWhile_eq_self_iff.2 hlines]
  rw [hbody, trimLineFeeds_append ha hb hc hjoin hlast, ← flatMap_cons_lineFeed hne']
  exact .flat hblock hne' (by rwa [hpatterns]) fun m hm => (hlined m hm).2

/-- Lines that each end with a line feed, and what follows, each behind a line feed. -/
theorem lineFeed_flatMap (ls : List Text) (r : Text) :
    .char '\n' :: (ls.flatMap (· ++ [.char '\n']) ++ r) =
    ls.flatMap (.char '\n' :: ·) ++ .char '\n' :: r := by
  induction ls with
  | nil => rfl
  | cons l ls ih =>
    rw [List.flatMap_cons, List.flatMap_cons, List.append_assoc _ _ (.char '\n' :: r), ← ih]
    simp

/-- Where filling is told as a relation, it gives the same. -/
theorem filled_of_fill {value? : Text → Option Text} {ls ms ls' ms' : List Text}
    (h : List.Forall₂ (Template.Filled value?) ls ms) (hsub : ls' ⊆ ls)
    (h' : List.Forall₂ (fun l m => Template.fill value? l = .ok m) ls' ms') :
    List.Forall₂ (Template.Filled value?) ls' ms' := by
  have hexists : ∀ l ∈ ls, ∃ m, Template.Filled value? l m := by
    clear hsub
    induction h with
    | nil => simp
    | cons hm _ ih => exact List.forall_mem_cons.2 ⟨⟨_, hm⟩, ih⟩
  induction h' with
  | nil => exact .nil
  | @cons l m ls' ms' hfill _ ih =>
    obtain ⟨hl, hrest⟩ := List.cons_subset.1 hsub
    obtain ⟨m', hm⟩ := hexists l hl
    rw [hm.fill, Except.ok.injEq] at hfill
    exact .cons (hfill ▸ hm) (ih hrest)

theorem Fragment.Regular.laid_block {name head tail : Text} {filled : List Text}
    (h : f.Regular versions body) (hblock : f.block = some name) (hname : name ≠ [])
    (hfilled : List.Forall₂ (fun l m => Template.fill versions.get? l = .ok m) f.heads filled)
    (hhead : IsHeader name head) (hfeed : .char '\n' ∉ head)
    (hbody : body = filled.flatMap (· ++ [.char '\n']) ++ (head ++ .char '{' :: tail))
    (hclose : closeOf body (filled.flatMap (· ++ [CodePoint.char '\n']) ++ head).length =
      .ok (body.length - 1)) : Laid f (.char '\n' :: body) := by
  obtain ⟨ms, -, -, hms, -, -, -, hlines⟩ := h.exists_filled
  -- the lines at the head are filled as in the body
  have hheads := filled_of_fill hms (List.takeWhile_sublist _).subset hfilled
  have hdeclarations : ∀ l ∈ f.heads, Declaration.isDeclaration l = true ∧ .char '\n' ∉ l := by
    intro l hl
    exact ⟨List.all_eq_true.1 List.all_takeWhile l hl,
      hlines l ((List.takeWhile_sublist _).subset hl)⟩
  obtain ⟨hfits, hlined⟩ := fits_of_forall₂ hdeclarations hheads
  -- the last character of the body closes the block
  obtain ⟨c, name, rfl⟩ := List.exists_cons_of_ne_nil hname
  obtain ⟨-, hlt, -, hlast⟩ := getElem?_of_closeOf hclose
  obtain ⟨inner, rfl⟩ : ∃ inner, tail = inner ++ [.char '}'] := by
    rw [← List.getLast?_eq_getElem?] at hlast
    rcases List.eq_nil_or_concat tail with rfl | ⟨inner, d, rfl⟩
    · rw [hbody, Int.toNat_natCast] at hlt
      simp only [List.length_append, List.length_cons, List.length_nil] at hlt
      omega
    · rw [List.concat_eq_append] at hbody ⊢
      have hend : body = filled.flatMap (· ++ [.char '\n']) ++
          (head ++ .char '{' :: inner) ++ [d] := by
        rw [hbody]
        simp
      rw [hend, List.getLast?_concat, Option.some.injEq] at hlast
      exact ⟨inner, by rw [hlast]⟩
  have hdrop : body.drop (filled.flatMap (· ++ [CodePoint.char '\n']) ++ head).length =
      .char '{' :: (inner ++ .char '}' :: []) := by
    rw [hbody, ← List.append_assoc, List.drop_left]
  have hlength : body.length - 1 =
      (filled.flatMap (· ++ [CodePoint.char '\n']) ++ head).length + 1 + inner.length := by
    rw [hbody]
    simp only [List.length_append, List.length_cons, List.length_nil]
    omega
  obtain ⟨bs, hreads, hlevel⟩ := reads_of_closeOf hdrop (by rw [hclose, hlength])
  rw [hbody, lineFeed_flatMap]
  exact .block hblock hhead hfeed hfits (fun m hm => (hlined m hm).2) hreads hlevel

/-- **The body of a regular fragment is laid** as its span takes it. -/
theorem Fragment.Regular.laid (h : f.Regular versions body) : Laid f (.char '\n' :: body) := by
  cases h.shape with
  | flat hblock hne hlines => exact h.laid_flat hblock hne hlines
  | block hblock hname hfilled hhead hfeed hbody hclose =>
    exact h.laid_block hblock hname hfilled hhead hfeed hbody hclose

theorem Fragment.Legible.getLast?_ne (h : f.Legible versions body) :
    body.getLast? ≠ some (.char '\n') := by
  obtain ⟨w, -, rfl⟩ := exists_of_map_eq_ok h.rendered
  obtain ⟨-, -, -, -, -, hlast⟩ := exists_trimLineFeeds w
  exact hlast

/-! ## Putting it in and taking it out -/

section Legible

variable (h : f.Legible versions body)
include h

theorem Fragment.Legible.lineFeed_not_mem : .char '\n' ∉ f.marker := by
  intro hmem
  have := h.oneLine _ hmem
  revert this
  decide

theorem Fragment.Legible.marker_ne_nil : f.marker ≠ [] := by
  obtain ⟨p, hp⟩ := h.comment
  rw [hp]
  exact List.cons_ne_nil _ _

theorem Fragment.Legible.render_eq : f.render versions = .ok (f.marker ++ .char '\n' :: body) := by
  rw [Fragment.render, h.rendered]
  rfl

/-- A fragment that is laid where its marker has not been before is placed there. -/
theorem Fragment.Legible.placed (hlaid : Laid f u) (hu : search f.marker u = none)
    (hz : OpensIndented z) (hbehind : search f.marker z = none)
    (hx : ∀ v, search f.marker (x ++ v) = (search f.marker v).map (· + x.length)) :
    Placed f x u z := by
  have hfeed := h.lineFeed_not_mem
  have hne := h.marker_ne_nil
  refine ⟨hlaid, hz, by rw [hx, search_prefix, Option.map_some, Nat.zero_add], ?_⟩
  -- on its last line, what was laid is followed by indentation only
  obtain ⟨sp, rest, rfl, hsp, hrest⟩ := hz.exists_eq_append
  have hlast := List.getLast?_eq_some_getLast hne
  have hblank := isBlank_of_getLast?_trimRight (by rw [h.trimmed, hlast])
  have hfront := search_append_blanks hlast hblank (allBlank_of_isIndent hsp) hu
  rw [← List.append_assoc]
  rcases hrest with rfl | ⟨r, rfl⟩
  · rwa [List.append_nil]
  · have hr : r <:+: sp ++ .char '\n' :: r :=
      ((List.suffix_cons (.char '\n') r).trans (List.suffix_append sp _)).isInfix
    rw [search_line hfeed hfront, search_eq_none_of_isInfix hbehind hr]
    rfl

end Legible

section Regular

variable {brace : Nat} (h : f.Regular versions body) (hd : search f.marker d = none)
include h hd

open Insertion in
/-- What is put below a header is placed there, behind the margin of the block. -/
theorem Fragment.Regular.placed_below (htidy : Defaults.Tidy d brace) :
    insertBelow d (f.marker ++ .char '\n' :: body) brace =
      (d.take (brace + 1) ++ .char '\n' :: innerMargin d brace) ++ (f.marker ++
        (linesWith (innerMargin d brace) body ++
          pushed (innerMargin d brace) (d.drop (brace + 1)))) ∧
    Placed f (d.take (brace + 1) ++ .char '\n' :: innerMargin d brace)
      (linesWith (innerMargin d brace) body)
      (pushed (innerMargin d brace) (d.drop (brace + 1))) := by
  have hfeed := h.lineFeed_not_mem
  obtain ⟨p, hp⟩ := h.comment
  have hmargin := htidy.all_isIndent
  have hopens := opensIndented_pushed htidy.trailing (innerMargin d brace)
  have hbefore := search_eq_none_of_isInfix hd (List.take_prefix (brace + 1) d).isInfix
  have hdrop := search_eq_none_of_isInfix hd (List.drop_suffix (brace + 1) d).isInfix
  have hbody := contains_eq_false_iff.1 h.unmarked
  have hslash : .char '/' ∉ innerMargin d brace := not_mem_of_isIndent (by decide) hmargin
  have hx : ∀ v, search f.marker ((d.take (brace + 1) ++ .char '\n' :: innerMargin d brace) ++ v) =
      (search f.marker v).map
        (· + (d.take (brace + 1) ++ .char '\n' :: innerMargin d brace).length) := by
    intro v
    rw [List.append_assoc, List.cons_append, hp, search_beyond_line (hp ▸ hfeed) (hp ▸ hbefore) hslash,
      List.length_append, List.length_cons, Nat.add_assoc, Nat.add_comm 1]
  have hlines : search f.marker (linesWith (innerMargin d brace) body) = none := by
    rw [hp] at hfeed hbody ⊢
    exact search_linesWith hfeed hslash hbody
  have hpushed : search f.marker (pushed (innerMargin d brace) (d.drop (brace + 1))) = none := by
    rw [hp] at hdrop ⊢
    exact search_pushed (by decide) hslash hdrop
  refine ⟨?_, h.placed (h.laid.indented hmargin) hlines hopens hpushed hx⟩
  rw [insertBelow_eq, indent_render hp h.oneLine h.lineFeeds h.laid.ne_nil h.getLast?_ne]
  simp

/-- What is put at the end is placed there, on lines of its own. -/
theorem Fragment.Regular.placed_atEnd : ∃ x,
    insertAtEnd d f versions = .ok (x ++ (f.marker ++ (.char '\n' :: body ++ [.char '\n']))) ∧
      Placed f x (.char '\n' :: body) [.char '\n'] ∧ (x = [] ∨ x.getLast? = some (.char '\n')) ∧
      solids x = solids d := by
  have hfeed := h.lineFeed_not_mem
  obtain ⟨p, hp⟩ := h.comment
  obtain ⟨b, hb, -⟩ := exists_trimRight_append d
  have hhead : search f.marker (trimRight d) = none := by
    rw [hb] at hd
    exact search_eq_none_of_isInfix hd (List.prefix_append _ _).isInfix
  have hbreak : CodePoint.char '/' ∉ [CodePoint.char '\n'] := by decide
  have hbody : search f.marker (.char '\n' :: body) = none := by
    have hunmarked := contains_eq_false_iff.1 h.unmarked
    rw [hp] at hunmarked ⊢
    show search _ ([.char '\n'] ++ body) = none
    rw [search_append hbreak, hunmarked]
    rfl
  have hend : search f.marker [.char '\n'] = none := by
    rw [hp]
    rfl
  have hopens : OpensIndented [.char '\n'] := rfl
  have hplaced : ∀ x, (∀ v, search f.marker (x ++ v) = (search f.marker v).map (· + x.length)) →
      Placed f x (.char '\n' :: body) [.char '\n'] := fun x => h.placed h.laid hbody hopens hend
  -- what comes before the marker is the text and a blank line, or nothing at all
  rw [← solids_trimRight d, insertAtEnd, h.render_eq]
  generalize trimRight d = head at hhead
  cases head with
  | nil => exact ⟨[], by simp, hplaced [] (by simp), .inl rfl, rfl⟩
  | cons c r =>
    refine ⟨(c :: r) ++ [.char '\n', .char '\n'], by simp, hplaced _ fun v => ?_,
      .inr (List.getLast?_append_of_ne_nil _ (by simp)), ?_⟩
    · rw [hp] at hhead hfeed ⊢
      have hline := search_beyond_line hfeed hhead hbreak v
      rw [List.append_assoc]
      exact hline.trans (by simp)
    · rw [solids_append, solids_lineFeed, solids_lineFeed, solids_nil, List.append_nil]

open Insertion in
/-- What is put below a header can be taken out. -/
theorem Fragment.Regular.remove_insertBelow (htidy : Defaults.Tidy d brace) :
    ∃ u, remove (insertBelow d (f.marker ++ .char '\n' :: body) brace) f = .ok u ∧
      solids u = solids d := by
  have hblank := allBlank_innerMargin d brace
  obtain ⟨htext, hplaced⟩ := h.placed_below hd htidy
  obtain ⟨u, hu, hsolids⟩ := hplaced.exists_remove h.lineFeed_not_mem h.marker_ne_nil
  refine ⟨u, by rw [htext, hu], ?_⟩
  rw [hsolids, solids_append, solids_lineFeed, solids_eq_nil_iff.2 hblank, List.append_nil,
    solids_pushed hblank, ← solids_append, List.take_append_drop]

/-- What is put at the end can be taken out. -/
theorem Fragment.Regular.remove_insertAtEnd : ∃ t u, insertAtEnd d f versions = .ok t ∧
    remove t f = .ok u ∧ solids u = solids d := by
  obtain ⟨x, hx, hplaced, -, hsolids⟩ := h.placed_atEnd hd
  obtain ⟨u, hu, hleft⟩ := hplaced.exists_remove h.lineFeed_not_mem h.marker_ne_nil
  exact ⟨_, u, hx, hu, by rw [hleft, hsolids]; simp⟩

end Regular

/-- **Removal undoes insertion.** -/
theorem remove_insert (h : f.Regular versions body) (hd : d.contains f.marker = false)
    (hanchor : f.anchor.isBlock = true → ∃ brace,
      blockBrace? d (f.anchor.block.getD []) = some brace ∧ Defaults.Tidy d brace) :
    ∃ t u, insert d f versions = .ok t ∧ remove t f = .ok u ∧ solids u = solids d := by
  have hnone := contains_eq_false_iff.1 hd
  rw [insert, hd, if_neg (by simp)]
  by_cases hblock : f.anchor.isBlock = true
  · obtain ⟨brace, hbrace, htidy⟩ := hanchor hblock
    obtain ⟨u, hu, hsolids⟩ := h.remove_insertBelow hnone htidy
    refine ⟨_, u, ?_, hu, hsolids⟩
    rw [if_pos hblock, insertInside, hbrace, h.render_eq]
  · rw [if_neg hblock]
    exact h.remove_insertAtEnd hnone

/-! ### A declaration line and a block -/

/-- A fragment with a declaration line and a block. -/
def mixedFragment : Fragment where
  marker := "// added".toText
  template := "implementation 'a:$v'\nfoo \x7b\n\n    bar '\x7d'\n\x7d\n".toText
  anchor := .inBlock "dependencies".toText
  block := some "foo".toText

/-- The version that the declaration line needs. -/
def mixedVersions : VersionSet :=
  ⟨"mixed".toText, [("v".toText, "1.0".toText)]⟩

/-- The body of the fragment. -/
def mixedBody : Text :=
  "implementation 'a:1.0'\nfoo \x7b\n\n    bar '\x7d'\n\x7d".toText

/-- A text whose header shares its line with a declaration. -/
def crowdedText : Text :=
  "\tdependencies \x7b compile 'b' \x7d\n".toText

theorem legible_mixedFragment : mixedFragment.Legible mixedVersions mixedBody := by
  unfold mixedFragment mixedVersions mixedBody
  repeat rw [String.toText_ofList]
  exact
    { comment := ⟨" added".toText, by decide⟩
      trimmed := by decide
      oneLine := by decide
      sound := by decide
      rendered := eq_ok_of_toOption (by decide)
      lineFeeds := by decide
      unmarked := by decide }

theorem regular_mixedFragment : mixedFragment.Regular mixedVersions mixedBody := by
  have hheads : mixedFragment.heads = ["implementation 'a:$v'".toText] := by
    unfold mixedFragment
    repeat rw [String.toText_ofList]
    decide
  have hfill : Template.fill mixedVersions.get? "implementation 'a:$v'".toText =
      .ok "implementation 'a:1.0'".toText := by
    unfold mixedVersions
    repeat rw [String.toText_ofList]
    exact eq_ok_of_toOption (by decide)
  have hfilled : List.Forall₂ (fun l m => Template.fill mixedVersions.get? l = .ok m)
      mixedFragment.heads ["implementation 'a:1.0'".toText] := by
    rw [hheads]
    exact .cons hfill .nil
  have hhead : IsHeader "foo".toText "foo ".toText := ⟨[], [.char ' '], by decide, rfl, by decide⟩
  have hbody : mixedBody = ["implementation 'a:1.0'".toText].flatMap (· ++ [.char '\n']) ++
      ("foo ".toText ++ .char '{' :: "\n\n    bar '\x7d'\n\x7d".toText) := by
    unfold mixedBody
    repeat rw [String.toText_ofList]
    decide
  have hclose : closeOf mixedBody
      (["implementation 'a:1.0'".toText].flatMap (· ++ [CodePoint.char '\n']) ++
      "foo ".toText).length = .ok (mixedBody.length - 1) := by
    unfold mixedBody
    repeat rw [String.toText_ofList]
    exact eq_ok_of_toOption (by decide)
  exact { legible_mixedFragment with
    shape := .block rfl (by decide) hfilled hhead (by decide) hbody hclose }

/-- The fragment goes into the crowded text and comes out again. -/
theorem remove_insert_mixed :
    mixedFragment.Regular mixedVersions mixedBody ∧
      crowdedText.contains mixedFragment.marker = false ∧
      (mixedFragment.anchor.isBlock = true → ∃ brace,
        blockBrace? crowdedText (mixedFragment.anchor.block.getD []) = some brace ∧
          Defaults.Tidy crowdedText brace) ∧
      ∃ t u, insert crowdedText mixedFragment mixedVersions = .ok t ∧
        remove t mixedFragment = .ok u ∧ solids u = solids crowdedText := by
  have hmarker : crowdedText.contains mixedFragment.marker = false := by
    unfold crowdedText mixedFragment
    repeat rw [String.toText_ofList]
    decide
  have hanchor : mixedFragment.anchor.isBlock = true → ∃ brace,
      blockBrace? crowdedText (mixedFragment.anchor.block.getD []) = some brace ∧
        Defaults.Tidy crowdedText brace := by
    unfold crowdedText mixedFragment
    repeat rw [String.toText_ofList]
    exact fun _ => ⟨14, by decide, by decide, by decide⟩
  exact ⟨regular_mixedFragment, hmarker, hanchor,
    remove_insert regular_mixedFragment hmarker hanchor⟩

/-! ### What is not regular -/

/-- The body is some declaration lines of the template, filled, and a block whose brace is the partner
of its last character. The lines need not be those at the head, and the block needs no name. -/
def Fragment.EndsInBlock (f : Fragment) (versions : VersionSet) (body : Text) : Prop :=
  ∃ (name : Text) (filled : List Text) (head tail : Text), f.block = some name ∧
    (∀ m ∈ filled, ∃ l ∈ lines (trimLineFeeds f.template), Declaration.isDeclaration l = true ∧
      Template.fill versions.get? l = .ok m) ∧ IsHeader name head ∧ .char '\n' ∉ head ∧
    body = filled.flatMap (· ++ [.char '\n']) ++ (head ++ .char '{' :: tail) ∧
    closeOf body (filled.flatMap (· ++ [CodePoint.char '\n']) ++ head).length =
      .ok (body.length - 1)

/-- A fragment whose block has no name. -/
def namelessFragment : Fragment where
  marker := "// m".toText
  template := "implementation 'a'\n \x7b\n\x7d".toText
  anchor := .endOfFile
  block := some []

/-- A fragment with a line before its declaration line that comes out empty. One pattern for each
declaration line before the header of the block would make one here; but the patterns stop at the
first line that is no declaration, whatever follows it, and so there is none. -/
def precededFragment : Fragment where
  marker := "// m".toText
  template := "$x\nimplementation 'a'\nfoo \x7b\n\x7d".toText
  anchor := .endOfFile
  block := some "foo".toText

/-- A version set with an empty value. -/
def emptyVersion : VersionSet :=
  ⟨"t".toText, [("x".toText, [])]⟩

theorem legible_namelessFragment :
    namelessFragment.Legible emptyVersion "implementation 'a'\n \x7b\n\x7d".toText := by
  unfold namelessFragment emptyVersion
  repeat rw [String.toText_ofList]
  exact
    { comment := ⟨" m".toText, by decide⟩
      trimmed := by decide
      oneLine := by decide
      sound := by decide
      rendered := eq_ok_of_toOption (by decide)
      lineFeeds := by decide
      unmarked := by decide }

theorem legible_precededFragment :
    precededFragment.Legible emptyVersion "implementation 'a'\nfoo \x7b\n\x7d".toText := by
  unfold precededFragment emptyVersion
  repeat rw [String.toText_ofList]
  exact
    { comment := ⟨" m".toText, by decide⟩
      trimmed := by decide
      oneLine := by decide
      sound := by decide
      rendered := eq_ok_of_toOption (by decide)
      lineFeeds := by decide
      unmarked := by decide }

theorem fill_implementation : Template.fill emptyVersion.get? "implementation 'a'".toText =
    .ok "implementation 'a'".toText := by
  unfold emptyVersion
  repeat rw [String.toText_ofList]
  exact eq_ok_of_toOption (by decide)

theorem isDeclaration_implementation :
    Declaration.isDeclaration "implementation 'a'".toText = true := by
  rw [String.toText_ofList]
  decide

theorem endsInBlock_namelessFragment :
    namelessFragment.EndsInBlock emptyVersion "implementation 'a'\n \x7b\n\x7d".toText := by
  refine ⟨[], ["implementation 'a'".toText], [.char ' '], "\n\x7d".toText, rfl, ?_,
    ⟨[.char ' '], [], rfl, by decide, rfl⟩, by decide, ?_, ?_⟩
  · intro m hm
    rw [List.mem_singleton.1 hm]
    refine ⟨"implementation 'a'".toText, ?_, isDeclaration_implementation, fill_implementation⟩
    unfold namelessFragment
    repeat rw [String.toText_ofList]
    decide
  · repeat rw [String.toText_ofList]
    decide
  · repeat rw [String.toText_ofList]
    exact eq_ok_of_toOption (by decide)

theorem endsInBlock_precededFragment :
    precededFragment.EndsInBlock emptyVersion "implementation 'a'\nfoo \x7b\n\x7d".toText := by
  refine ⟨"foo".toText, ["implementation 'a'".toText], "foo ".toText, "\n\x7d".toText, rfl, ?_,
    ⟨[], [.char ' '], by decide, rfl, by decide⟩, by decide, ?_, ?_⟩
  · intro m hm
    rw [List.mem_singleton.1 hm]
    refine ⟨"implementation 'a'".toText, ?_, isDeclaration_implementation, fill_implementation⟩
    unfold precededFragment
    repeat rw [String.toText_ofList]
    decide
  · repeat rw [String.toText_ofList]
    decide
  · repeat rw [String.toText_ofList]
    exact eq_ok_of_toOption (by decide)

/-- Of a nameless block something is left, and a block whose lines are not at the head of the template
is not found, though either fragment is legible and ends in a block. -/
theorem endsInBlock_not_undone :
    (balance [] = .ok () ∧ Text.contains [] "// m".toText = false) ∧
    (namelessFragment.anchor.isBlock = false ∧ namelessFragment.marker = "// m".toText ∧
      namelessFragment.Legible emptyVersion "implementation 'a'\n \x7b\n\x7d".toText ∧
      namelessFragment.EndsInBlock emptyVersion "implementation 'a'\n \x7b\n\x7d".toText ∧
      ∃ t u, insert [] namelessFragment emptyVersion = .ok t ∧
        remove t namelessFragment = .ok u ∧ solids u = [.char '{', .char '}']) ∧
    (precededFragment.anchor.isBlock = false ∧ precededFragment.marker = "// m".toText ∧
      precededFragment.Legible emptyVersion "implementation 'a'\nfoo \x7b\n\x7d".toText ∧
      precededFragment.EndsInBlock emptyVersion "implementation 'a'\nfoo \x7b\n\x7d".toText ∧
      ∃ t e, insert [] precededFragment emptyVersion = .ok t ∧
        remove t precededFragment = .error e) := by
  refine ⟨⟨eq_ok_of_toOption (by decide), by decide⟩,
    ⟨by decide, rfl, legible_namelessFragment, endsInBlock_namelessFragment, ?_⟩,
    by decide, rfl, legible_precededFragment, endsInBlock_precededFragment, ?_⟩
  · refine ⟨"// m\nimplementation 'a'\n \x7b\n\x7d\n".toText, " \x7b\n\x7d\n".toText, ?_⟩
    unfold namelessFragment emptyVersion
    repeat rw [String.toText_ofList]
    exact ⟨eq_ok_of_toOption (by decide), eq_ok_of_toOption (by decide),
      by decide⟩
  · refine ⟨"// m\nimplementation 'a'\nfoo \x7b\n\x7d\n".toText, ?_⟩
    unfold precededFragment emptyVersion
    repeat rw [String.toText_ofList]
    generalize hr : remove _ _ = r
    have herror : r.toOption = none := by
      rw [← hr]
      decide
    cases r with
    | ok u => cases herror
    | error e => exact ⟨e, eq_ok_of_toOption (by decide), rfl⟩

end Graft
