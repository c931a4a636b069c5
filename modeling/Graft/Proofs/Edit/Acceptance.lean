import Graft.Proofs.Edit.Undoing

/-!
# What is put in is found correct

A regular fragment is found again where it was put: its span is what was put in and some blanks
behind it. So whatever is required of it is in its span, as long as it is found on a line of the
fragment that is not blank; blank lines are emptied when the fragment is indented.

> `standing_insert`: a regular fragment that is put into a text is found correct, and its span is the
> fragment as it was put in.
-/

namespace Graft

open Text

variable {f : Fragment} {versions : VersionSet} {body d m t u x y z : Text} {s : Span}

/-! ## The span of what is placed -/

/-- **The span of what is placed** on a line of its own is all of it, with blanks behind it. -/
theorem Placed.exists_text (h : Placed f (y ++ m) u z) (hfeed : .char '\n' ∉ f.marker)
    (hne : f.marker ≠ []) (hy : y = [] ∨ y.getLast? = some (.char '\n'))
    (hm : m.all isIndent = true) :
    ∃ s b, spanFrom ((y ++ m) ++ (f.marker ++ (u ++ z))) f 0 = .ok (some s) ∧
      s.text ((y ++ m) ++ (f.marker ++ (u ++ z))) = (m ++ (f.marker ++ u)) ++ b ∧
      allBlank b = true := by
  obtain ⟨s, sp, rest, hspan, rfl, hsp, hstart, hle, hdrop⟩ := h.exists_span hfeed hne hy hm
  obtain ⟨feed, hrest, hfeeds⟩ : ∃ feed, rest = feed ++ Declaration.dropOne (.char '\n') rest ∧
      allBlank feed = true := by
    cases rest with
    | nil => exact ⟨[], rfl, rfl⟩
    | cons c r =>
      by_cases hc : c = .char '\n'
      · exact ⟨[.char '\n'], by rw [Declaration.dropOne, if_pos hc, hc]; rfl, rfl⟩
      · exact ⟨[], by rw [Declaration.dropOne, if_neg hc]; rfl, rfl⟩
  refine ⟨s, sp ++ feed, hspan, ?_, ?_⟩
  · have hwhole : s.text ((y ++ m) ++ (f.marker ++ (u ++ (sp ++ rest)))) ++ _ = _ :=
      slice_append_drop hle _
    rw [hdrop, hstart, List.append_assoc y, List.drop_left, ← List.append_assoc y] at hwhole
    apply List.append_cancel_right (hwhole.trans _)
    simp only [List.append_assoc]
    rw [← hrest]
  · rw [allBlank, List.all_append, ← allBlank, ← allBlank, hfeeds, allBlank_of_isIndent hsp]
    rfl

/-! ## What is required -/

/-- What is required of a fragment by default is found on its lines. -/
theorem Fragment.Legible.exists_line_of_required (h : f.Legible versions body)
    {required : List Text} (hnone : f.required = [])
    (hrequired : f.requiredTexts versions = .ok required) : ∀ text ∈ required, text = [] ∨
      ∃ line ∈ lines (f.marker ++ .char '\n' :: body), allBlank line = false ∧ text <:+: line := by
  intro text htext
  obtain ⟨l, hl, rfl⟩ := f.mem_requiredTexts hnone h.rendered hrequired htext
  cases hblank : allBlank l with
  | true => exact .inl ((trim_eq_nil_iff l).2 hblank)
  | false =>
    refine .inr ⟨l, ?_, hblank, trim_infix l⟩
    rw [lines_append h.oneLine]
    exact List.mem_cons_of_mem _ hl

/-- A line that is not blank is still there when it is indented with others. -/
theorem Insertion.infix_indent {line : Text} (hline : line ∈ lines t)
    (hblank : allBlank line = false) (margin : Text) : line <:+: indent margin t := by
  have hmem : margin ++ line ∈ (lines t).map fun l => if allBlank l then [] else margin ++ l :=
    List.mem_map.2 ⟨line, hline, by rw [hblank]; rfl⟩
  exact (List.suffix_append margin line).isInfix.trans (infix_join _ hmem)

section Regular

variable (h : f.Regular versions body)
include h

/-- A fragment that is placed is found correct if its span holds what is required. -/
theorem Fragment.Regular.standing_placed {required : List Text} {inserted b : Text}
    (hplaced : Placed f x u z) (hrequired : f.requiredTexts versions = .ok required)
    (hspan : spanFrom (x ++ (f.marker ++ (u ++ z))) f 0 = .ok (some s))
    (htext : s.text (x ++ (f.marker ++ (u ++ z))) = inserted ++ b)
    (hall : ∀ text ∈ required, text <:+: inserted) :
    standing (x ++ (f.marker ++ (u ++ z))) f versions = .ok .correct := by
  rw [standing_eq_correct_iff]
  refine ⟨count_eq_one h.marker_ne_nil hplaced.first hplaced.once, ?_⟩
  refine missingTexts_eq_nil hspan hrequired fun text hmem => ?_
  rw [htext]
  exact (hall text hmem).trans (List.prefix_append _ _).isInfix

end Regular

/-- **What is put in is found correct.** -/
theorem standing_insert {required : List Text} (h : f.Regular versions body)
    (hrequired : f.requiredTexts versions = .ok required)
    (hfound : f.required = [] ∨ ∀ text ∈ required, text = [] ∨
      ∃ line ∈ lines (f.marker ++ .char '\n' :: body), allBlank line = false ∧ text <:+: line)
    (hd : d.contains f.marker = false)
    (hanchor : f.anchor.isBlock = true → ∃ brace,
      blockBrace? d (f.anchor.block.getD []) = some brace ∧ Defaults.Tidy d brace) :
    ∃ t s b, insert d f versions = .ok t ∧ standing t f versions = .ok .correct ∧
      spanFrom t f 0 = .ok (some s) ∧ allBlank b = true ∧
      (f.anchor.isBlock = true → ∀ brace, blockBrace? d (f.anchor.block.getD []) = some brace →
        s.text t = Insertion.indent (Insertion.innerMargin d brace)
          (f.marker ++ .char '\n' :: body) ++ b) ∧
      (f.anchor.isBlock = false → s.text t = f.marker ++ .char '\n' :: body ++ b) := by
  have hnone := contains_eq_false_iff.1 hd
  have hfeed := h.lineFeed_not_mem
  have hne := h.marker_ne_nil
  have hlines : ∀ text ∈ required, text = [] ∨
      ∃ line ∈ lines (f.marker ++ .char '\n' :: body), allBlank line = false ∧ text <:+: line :=
    hfound.elim (fun hempty => h.exists_line_of_required hempty hrequired) id
  rw [insert, hd, if_neg (by simp)]
  cases hblock : f.anchor.isBlock with
  | true =>
    obtain ⟨brace, hbrace, htidy⟩ := hanchor hblock
    obtain ⟨p, hp⟩ := h.comment
    obtain ⟨hput, hplaced⟩ := h.placed_below hnone htidy
    have hindent := Insertion.indent_render hp h.oneLine h.lineFeeds h.laid.ne_nil h.getLast?_ne
      (Insertion.innerMargin d brace)
    have hline : (d.take (brace + 1) ++ [CodePoint.char '\n']).getLast? = some (.char '\n') :=
      List.getLast?_concat
    rw [List.append_cons (d.take (brace + 1))] at hput hplaced
    obtain ⟨s, b, hspan, htext, hb⟩ :=
      hplaced.exists_text hfeed hne (.inr hline) htidy.all_isIndent
    rw [← hindent] at htext
    have hstanding := h.standing_placed hplaced hrequired hspan htext fun text hmem => by
      rcases hlines text hmem with rfl | ⟨line, hline, hblank, hinfix⟩
      · exact List.nil_infix
      · exact hinfix.trans (Insertion.infix_indent hline hblank _)
    refine ⟨_, s, b, ?_, hstanding, hspan, hb, fun _ brace' hbrace' => ?_, fun hend => by cases hend⟩
    · rw [if_pos rfl, insertInside, hbrace, h.render_eq]
      exact congrArg Except.ok hput
    · obtain rfl := Option.some.inj (hbrace.symm.trans hbrace')
      exact htext
  | false =>
    obtain ⟨x, hput, hplaced, hline, -⟩ := h.placed_atEnd hnone
    rw [← List.append_nil x] at hput hplaced
    obtain ⟨s, b, hspan, htext, hb⟩ := hplaced.exists_text hfeed hne hline rfl
    have hstanding := h.standing_placed hplaced hrequired hspan htext fun text hmem => by
      rcases hlines text hmem with rfl | ⟨line, hline, -, hinfix⟩
      · exact List.nil_infix
      · exact hinfix.trans (infix_of_mem_lines hline)
    refine ⟨_, s, b, ?_, hstanding, hspan, hb, fun hinside => (by cases hinside),
      fun _ => htext⟩
    rw [if_neg (by simp)]
    exact hput

/-- The fragment of a declaration line and a block is found correct in the crowded text. -/
theorem standing_insert_mixed :
    mixedFragment.Regular mixedVersions mixedBody ∧
      mixedFragment.requiredTexts mixedVersions =
        .ok ["implementation 'a:1.0'".toText, "foo \x7b".toText, "bar '\x7d'".toText] ∧
      crowdedText.contains mixedFragment.marker = false ∧
      (mixedFragment.anchor.isBlock = true → ∃ brace,
        blockBrace? crowdedText (mixedFragment.anchor.block.getD []) = some brace ∧
          Defaults.Tidy crowdedText brace) ∧
      ∃ t s b, insert crowdedText mixedFragment mixedVersions = .ok t ∧
        standing t mixedFragment mixedVersions = .ok .correct ∧
        spanFrom t mixedFragment 0 = .ok (some s) ∧ allBlank b = true ∧
        s.text t = Insertion.indent (Insertion.innerMargin crowdedText 14)
          (mixedFragment.marker ++ .char '\n' :: mixedBody) ++ b := by
  have hmarker : crowdedText.contains mixedFragment.marker = false := by
    unfold crowdedText mixedFragment
    repeat rw [String.toText_ofList]
    decide
  have hbrace : blockBrace? crowdedText (mixedFragment.anchor.block.getD []) = some 14 := by
    unfold crowdedText mixedFragment
    repeat rw [String.toText_ofList]
    decide
  have htidy : Defaults.Tidy crowdedText 14 := by
    unfold crowdedText
    repeat rw [String.toText_ofList]
    exact ⟨by decide, by decide⟩
  have hanchor : mixedFragment.anchor.isBlock = true → ∃ brace,
      blockBrace? crowdedText (mixedFragment.anchor.block.getD []) = some brace ∧
        Defaults.Tidy crowdedText brace :=
    fun _ => ⟨14, hbrace, htidy⟩
  have hrequired : mixedFragment.requiredTexts mixedVersions =
      .ok ["implementation 'a:1.0'".toText, "foo \x7b".toText, "bar '\x7d'".toText] := by
    unfold mixedFragment mixedVersions
    repeat rw [String.toText_ofList]
    exact eq_ok_of_toOption (by decide)
  obtain ⟨t, s, b, ht, hstanding, hspan, hb, htext, -⟩ :=
    standing_insert regular_mixedFragment hrequired (.inl rfl) hmarker hanchor
  exact ⟨regular_mixedFragment, hrequired, hmarker, hanchor, t, s, b, ht, hstanding, hspan, hb,
    htext (by decide) 14 hbrace⟩

/-! ### What is not found -/

/-- A fragment of a block with a line of blanks in it, which is required. -/
def blankFragment : Fragment where
  marker := "// m".toText
  template := "foo \x7b\n     \n\x7d".toText
  anchor := .inBlock "dependencies".toText
  required := ["     ".toText]
  block := some "foo".toText

/-- The body of the fragment. -/
def blankBody : Text :=
  "foo \x7b\n     \n\x7d".toText

/-- An empty block to put it in. -/
def emptyDependencies : Text :=
  "dependencies \x7b\n\x7d\n".toText

theorem regular_blankFragment : blankFragment.Regular emptyVersion blankBody := by
  have hlegible : blankFragment.Legible emptyVersion blankBody := by
    unfold blankFragment emptyVersion blankBody
    repeat rw [String.toText_ofList]
    exact
      { comment := ⟨" m".toText, by decide⟩
        trimmed := by decide
        oneLine := by decide
        sound := by decide
        rendered := eq_ok_of_toOption (by decide)
        lineFeeds := by decide
        unmarked := by decide }
  have hheads : blankFragment.heads = [] := by
    unfold blankFragment
    repeat rw [String.toText_ofList]
    decide
  have hfilled : List.Forall₂ (fun l m => Template.fill emptyVersion.get? l = .ok m)
      blankFragment.heads [] := by
    rw [hheads]
    exact .nil
  have hhead : IsHeader "foo".toText "foo ".toText := ⟨[], [.char ' '], by decide, rfl, by decide⟩
  have hbody : blankBody = [].flatMap (· ++ [.char '\n']) ++
      ("foo ".toText ++ .char '{' :: "\n     \n\x7d".toText) := by
    unfold blankBody
    repeat rw [String.toText_ofList]
    decide
  have hclose : closeOf blankBody ([].flatMap (· ++ [CodePoint.char '\n']) ++
      "foo ".toText).length = .ok (blankBody.length - 1) := by
    unfold blankBody
    repeat rw [String.toText_ofList]
    exact eq_ok_of_toOption (by decide)
  exact { hlegible with shape := .block rfl (by decide) hfilled hhead (by decide) hbody hclose }

/-- A block whose lines are not at the head of the template makes the fragment stale, a nameless block
is not in the span, and a required text of blanks is lost from a blank line that is indented, though
all three fragments are legible and end in a block. -/
theorem endsInBlock_not_accepted :
    (balance [] = .ok () ∧ Text.contains [] "// m".toText = false) ∧
    (precededFragment.anchor.isBlock = false ∧ precededFragment.marker = "// m".toText ∧
      precededFragment.required = [] ∧
      precededFragment.Legible emptyVersion "implementation 'a'\nfoo \x7b\n\x7d".toText ∧
      precededFragment.EndsInBlock emptyVersion "implementation 'a'\nfoo \x7b\n\x7d".toText ∧
      ∃ t, insert [] precededFragment emptyVersion = .ok t ∧
        standing t precededFragment emptyVersion = .ok .stale) ∧
    (namelessFragment.anchor.isBlock = false ∧ namelessFragment.marker = "// m".toText ∧
      namelessFragment.required = [] ∧
      namelessFragment.Legible emptyVersion "implementation 'a'\n \x7b\n\x7d".toText ∧
      namelessFragment.EndsInBlock emptyVersion "implementation 'a'\n \x7b\n\x7d".toText ∧
      ∃ t s, insert [] namelessFragment emptyVersion = .ok t ∧
        spanFrom t namelessFragment 0 = .ok (some s) ∧
        trimRight (s.text t) = "// m\nimplementation 'a'".toText) ∧
    (blankFragment.Regular emptyVersion blankBody ∧
      emptyDependencies.contains blankFragment.marker = false ∧
      balance emptyDependencies = .ok () ∧
      blockBrace? emptyDependencies (blankFragment.anchor.block.getD []) = some 13 ∧
      Defaults.Tidy emptyDependencies 13 ∧
      blankFragment.requiredTexts emptyVersion = .ok ["     ".toText] ∧
      "     ".toText ∈ lines (blankFragment.marker ++ .char '\n' :: blankBody) ∧
      ∃ t, insert emptyDependencies blankFragment emptyVersion = .ok t ∧
        standing t blankFragment emptyVersion = .ok .stale) := by
  refine ⟨⟨eq_ok_of_toOption (by decide), by decide⟩,
    ⟨by decide, rfl, rfl, legible_precededFragment, endsInBlock_precededFragment, ?_⟩,
    ⟨by decide, rfl, rfl, legible_namelessFragment, endsInBlock_namelessFragment, ?_⟩,
    regular_blankFragment, ?_⟩
  · refine ⟨"// m\nimplementation 'a'\nfoo \x7b\n\x7d\n".toText, ?_⟩
    unfold precededFragment emptyVersion
    repeat rw [String.toText_ofList]
    exact ⟨eq_ok_of_toOption (by decide), eq_ok_of_toOption (by decide)⟩
  · refine ⟨"// m\nimplementation 'a'\n \x7b\n\x7d\n".toText, ⟨0, 24, 1⟩, ?_⟩
    unfold namelessFragment emptyVersion
    repeat rw [String.toText_ofList]
    exact ⟨eq_ok_of_toOption (by decide), eq_ok_of_toOption (by decide),
      by decide⟩
  · unfold emptyDependencies blankFragment emptyVersion blankBody
    repeat rw [String.toText_ofList]
    refine ⟨by decide, eq_ok_of_toOption (by decide), by decide,
      ⟨by decide, by decide⟩, eq_ok_of_toOption (by decide),
      by decide, "dependencies \x7b\n    // m\n    foo \x7b\n\n    \x7d\n\x7d\n".toText, ?_⟩
    rw [String.toText_ofList]
    exact ⟨eq_ok_of_toOption (by decide), eq_ok_of_toOption (by decide)⟩

end Graft
