import Graft.Proofs.Fragment.Recognition

/-!
# Escapes and patterns

The pattern of a declaration line is made by cutting it at its placeholders and taking everything
else as it stands, two dollar signs included. A rendered line fits it where two dollar signs stand
before names only (`Declaration.fits_of_rendered`), and unless a value has a dollar sign of its own,
nowhere else (`Declaration.namesEscapes_of_fits`).

> `Fragment.patterns_body`: the lines of a body fit the patterns of its template, one each, where
> the line of the template has two dollar signs before a name only. Where it has them before
> something else the pattern is not fitted, unless a value has a dollar sign of its own.

That a line does not fit is shown by counting: a refilled line has all the dollar signs of the
template that start no placeholder, and the rendered one has one for each two of them.
-/

namespace Graft

namespace Template

open Text

variable {escapes : Prop} {P : Text → Text → Prop} {p t u w name : Text}

/-- A dollar sign that starts no placeholder is still there. -/
theorem Refilled.of_nameless (hnone : placeholder? isWord t = none)
    (h : Refilled (.char '$' :: t) w) :
    ∃ v, w = .char '$' :: v ∧ Refilled t v := by
  generalize hr : .char '$' :: t = r at h
  cases h with
  | nil => cases hr
  | char _ h =>
    obtain ⟨rfl, rfl⟩ := List.cons.inj hr
    exact ⟨_, rfl, h⟩
  | placeholder hp _ _ =>
    obtain ⟨-, rfl⟩ := List.cons.inj hr
    rw [hnone] at hp
    cases hp

/-- Something stands in the place of a placeholder. -/
theorem Refilled.of_placeholder (hp : placeholder? isWord (p ++ t) = some (name, p.length))
    (h : Refilled (.char '$' :: (p ++ t)) w) : ∃ value v, w = value ++ v ∧ Refilled t v := by
  generalize hr : .char '$' :: (p ++ t) = r at h
  cases h with
  | nil => cases hr
  | char hc _ =>
    obtain ⟨rfl, rfl⟩ := List.cons.inj hr
    rw [hc rfl] at hp
    cases hp
  | placeholder hp' _ h =>
    obtain ⟨-, heq⟩ := List.cons.inj hr
    -- the two names are the same
    rw [← heq, hp, Option.some.injEq, Prod.mk.injEq] at hp'
    obtain ⟨rfl, rfl⟩ := List.append_inj heq hp'.2
    exact ⟨_, _, rfl, h⟩

/-- Refilled text has all the dollar signs that rendered text has, and just these only if two of
them stand before names. -/
theorem Aligned.count_le (hP : ∀ name value, P name value → .char '$' ∉ value)
    (h : Aligned escapes P t u) (hw : Refilled t w) :
    List.count (.char '$') u ≤ List.count (.char '$') w ∧
      (List.count (.char '$') w ≤ List.count (.char '$') u → NamesEscapes t) := by
  induction h generalizing w with
  | nil =>
    cases hw
    exact ⟨Nat.le_refl _, fun _ u s hu => by simp at hu⟩
  | char hc _ ih =>
    cases hw with
    | placeholder => exact absurd rfl hc
    | char _ hw =>
      obtain ⟨hle, hnames⟩ := ih hw
      rw [List.count_cons_of_ne hc, List.count_cons_of_ne hc]
      exact ⟨hle, fun hge => namesEscapes_cons.2 ⟨fun s heq => absurd heq hc, hnames hge⟩⟩
  | nameless _ hnone _ ih =>
    -- both are still there, and one of them is too many
    obtain ⟨v, rfl, hv⟩ := hw.of_nameless (placeholder?_dollar _ _)
    obtain ⟨w, rfl, hrest⟩ := hv.of_nameless hnone
    obtain ⟨hle, -⟩ := ih hrest
    simp only [List.count_cons_self]
    exact ⟨by omega, fun hge => by omega⟩
  | named _ hp _ ih =>
    obtain ⟨v, rfl, hv⟩ := hw.of_nameless (placeholder?_dollar _ _)
    obtain ⟨value, w, rfl, hrest⟩ := hv.of_placeholder hp
    obtain ⟨hle, hnames⟩ := ih hrest
    obtain ⟨hdollar, -⟩ := isValueChar_placeholder hp
    simp only [List.count_cons_self, List.count_append, List.count_eq_zero_of_not_mem hdollar]
    refine ⟨by omega, fun hge => namesEscapes_cons.2 ⟨fun r _ hr => ?_, ?_⟩⟩
    · rw [← (List.cons.inj hr).2, hp]
      rfl
    · exact (namesEscapes_placeholder hp).2 (hnames (by omega))
  | placeholder hp hvalue hq _ ih =>
    obtain ⟨value', w, rfl, hrest⟩ := hw.of_placeholder hp
    obtain ⟨hle, hnames⟩ := ih hrest
    simp only [List.count_append, List.count_eq_zero_of_not_mem (dollar_not_mem_of_isWord hq),
      List.count_eq_zero_of_not_mem (hP _ _ hvalue)]
    exact ⟨by omega, fun hge => (namesEscapes_placeholder hp).2 (hnames (by omega))⟩

end Template

namespace Declaration

open Text Template

variable {escapes : Prop} {P : Text → Text → Prop} {line m : Text}

/-- A rendered declaration line that fits its pattern has two dollar signs before names only, where
no value has a dollar sign. -/
theorem namesEscapes_of_fits (hline : isDeclaration line = true) (hfeed : .char '\n' ∉ line)
    (h : Rendered escapes P line m) (hP : ∀ name value, P name value → .char '$' ∉ value)
    (hfits : fits (patternOf line) m = true) : NamesEscapes (trim line) := by
  obtain ⟨a, w, b, rfl, ha, hb, hw⟩ := exists_of_rendered hline hfeed h
  have hnone : ∀ {x : Text}, x.all isIndent = true → List.count (.char '$') x = 0 := fun hx =>
    List.count_eq_zero_of_not_mem (not_mem_of_isIndent (by decide) hx)
  obtain ⟨a', w', b', heq, ha', hw', hb'⟩ := (fits_iff hline).1 hfits
  refine (hw.aligned.count_le hP hw').2 (Nat.le_of_eq ?_)
  have hcount := congrArg (List.count (.char '$')) heq
  simp only [List.count_append, hnone ha, hnone hb, hnone ha', hnone hb'] at hcount
  omega

end Declaration

namespace Fragment

open Text Template Declaration

variable {f : Fragment} {versions : VersionSet} {body : Text}

/-- A name in a placeholder of the template, and the value that it stands for. -/
def Uses (f : Fragment) (versions : VersionSet) (name value : Text) : Prop :=
  name ∈ names f.template ∧ versions.get? name = some value

/-- The body is the template, rendered, without the line feeds around it. -/
theorem exists_rendered (hbody : f.body versions = .ok body) :
    ∃ w, Rendered True (f.Uses versions) f.template w ∧ body = trimLineFeeds w := by
  obtain ⟨w, hw, rfl⟩ := exists_of_map_eq_ok hbody
  refine ⟨w, rendered_of_fill ?_, rfl⟩
  unfold Fragment.fill at hw
  split at hw
  · next t ht =>
    cases hw
    exact ht
  · cases hw
  · cases hw

/-- Rendered declaration lines are lines that are not empty. -/
theorem lined_of_rendered {ls ms : List Text}
    (hplain : ∀ name value, f.Uses versions name value → IsPlain value)
    (hls : ∀ l ∈ ls, isDeclaration l = true ∧ ∀ c ∈ l, isLineBreak c = false)
    (h : List.Forall₂ (Rendered True (f.Uses versions)) ls ms) :
    ∀ m ∈ ms, m ≠ [] ∧ ∀ c ∈ m, isLineBreak c = false := by
  induction h with
  | nil => simp
  | @cons l m ls ms hm _ ih =>
    obtain ⟨⟨hdeclaration, hbreaks⟩, hrest⟩ := List.forall_mem_cons.1 hls
    have habsent : ∀ {c : CodePoint}, isLineBreak c = true → c ∉ l := fun hc hmem => by
      rw [hbreaks _ hmem] at hc
      cases hc
    refine List.forall_mem_cons.2 ⟨⟨ne_nil_of_rendered hdeclaration (habsent (by decide)) hm, ?_⟩,
      ih hrest⟩
    intro c hc
    rw [← Bool.not_eq_true]
    intro hbreak
    refine hm.not_mem (fun name value hvalue hmem => ?_) (habsent hbreak) hc
    rw [(hplain name value hvalue c hmem).1] at hbreak
    cases hbreak

/-- The lines of a body are the lines of the template, rendered one by one. -/
theorem rendered_lines (hbreaks : ∀ c ∈ f.template, isLineBreak c = true → c = .char '\n')
    (hlines : ∀ l ∈ lines (trimLineFeeds f.template), isDeclaration l = true)
    (hbody : f.body versions = .ok body)
    (hplain : ∀ name value, f.Uses versions name value → IsPlain value) :
    List.Forall₂ (Rendered True (f.Uses versions)) (lines (trimLineFeeds f.template))
      (lines body) := by
  obtain ⟨w, hw, rfl⟩ := exists_rendered hbody
  obtain ⟨a, b, htemplate, ha, hb, hlast⟩ := exists_trimLineFeeds f.template
  rw [htemplate] at hw
  obtain ⟨v, rfl, hv⟩ := hw.of_append (not_mem_of_allBlank (by decide) (allBlank_of_lineFeeds ha))
  obtain ⟨u, rfl, hu⟩ := hv.of_append_blanks (allBlank_of_lineFeeds hb)
  by_cases hne : trimLineFeeds f.template = []
  · -- without a line there is nothing but line feeds
    rw [hne] at hu ⊢
    cases hu
    have hnone : trimLineFeeds (a ++ ([] ++ b)) = [] := by
      rw [trimLineFeeds, List.nil_append, List.dropWhile_eq_nil_iff.2]
      · rfl
      · rw [← List.all_eq_true, List.all_append, ha, hb]
        rfl
    rw [hnone]
    exact .nil
  · have hsub : ∀ c ∈ trimLineFeeds f.template, c ∈ f.template := by
      intro c hc
      rw [htemplate]
      exact List.mem_append_right _ (List.mem_append_left _ hc)
    have hsplit := lines_eq_splitLines (fun c hc => hbreaks c (hsub c hc)) hne hlast
    rw [← join_splitLines (trimLineFeeds f.template), ← hsplit] at hu
    obtain ⟨ms, hms, rfl⟩ := hu.exists_lines
    have hlined := lined_of_rendered hplain
      (fun l hl => ⟨hlines l hl, fun c => isLineBreak_of_mem_lines hl⟩) hms
    have hne' : ms ≠ [] := by
      rintro rfl
      rw [hsplit] at hms
      exact splitLines_ne_nil _ (List.forall₂_nil_right_iff.1 hms)
    obtain ⟨⟨c, r, hjoin, hc⟩, hend⟩ := ends_of_join hne' fun m hm =>
      ⟨(hlined m hm).1, fun hmem => by cases (hlined m hm).2 _ hmem⟩
    rw [trimLineFeeds_append ha hb hc hjoin hend, lines_join hlined]
    exact hms

/-- **The lines of a body and the patterns of its template.** Let all lines of a template be
declaration lines and the values for it plain. Then the body has as many lines as the template, each
line of the template has a pattern, and each line of the body fits the pattern in its place if two
dollar signs stand before names only in the line of the template; where no value has a dollar sign,
it fits in no other case. -/
theorem patterns_body (hbreaks : ∀ c ∈ f.template, isLineBreak c = true → c = .char '\n')
    (hlines : ∀ l ∈ lines (trimLineFeeds f.template), isDeclaration l = true)
    (hbody : f.body versions = .ok body)
    (hplain : ∀ name value, f.Uses versions name value → IsPlain value) :
    (lines body).length = (lines (trimLineFeeds f.template)).length ∧
      f.patterns.length = (lines (trimLineFeeds f.template)).length ∧
      ∀ (k : Nat) (l : Text) (p : Pattern) (m : Text),
        (lines (trimLineFeeds f.template))[k]? = some l → f.patterns[k]? = some p →
        (lines body)[k]? = some m →
          (NamesEscapes (trim l) → fits p m = true) ∧
          ((∀ name value, f.Uses versions name value → .char '$' ∉ value) → fits p m = true →
            NamesEscapes (trim l)) := by
  have hrendered := rendered_lines hbreaks hlines hbody hplain
  have hpatterns : f.patterns = (lines (trimLineFeeds f.template)).map patternOf := by
    rw [Fragment.patterns, List.takeWhile_eq_self_iff.2 hlines]
  refine ⟨hrendered.length_eq.symm, by rw [hpatterns, List.length_map], ?_⟩
  intro k l p m hl hp hm
  have hmem := List.mem_of_getElem? hl
  have hfeed : .char '\n' ∉ l := fun hc => by cases isLineBreak_of_mem_lines hmem hc
  rw [hpatterns, List.getElem?_map, hl] at hp
  cases hp
  have hline : Rendered True (f.Uses versions) l m := by
    obtain ⟨hlt, rfl⟩ := List.getElem?_eq_some_iff.1 hl
    obtain ⟨hlt', rfl⟩ := List.getElem?_eq_some_iff.1 hm
    exact hrendered.get hlt hlt'
  exact ⟨fun hnames => fits_of_rendered (hlines l hmem) hfeed hline hplain fun _ => hnames,
    namesEscapes_of_fits (hlines l hmem) hfeed hline⟩

/-- A fragment at the end of the file with a template of some text. -/
def withTemplate (template : String) : Fragment :=
  { marker := "// m".toText, template := template.toText, anchor := .endOfFile }

/-- A version set with one value. -/
def coreVersions : VersionSet :=
  ⟨"t".toText, [("core".toText, "1.0".toText)]⟩

theorem isPlain_of_uses {name value : Text} (h : f.Uses coreVersions name value) :
    IsPlain value := by
  have hvalue := h.2
  change (if "core".toText = name then some "1.0".toText else none) = some value at hvalue
  split at hvalue
  · cases hvalue
    decide
  · cases hvalue

/-- A fragment with every kind of placeholder, and with two dollar signs before a name. -/
def escapingFragment : Fragment :=
  withTemplate "api 'x:$core:$core'\nimplementation(\"y:$\x7bcore\x7d:$$tail\")"

theorem patterns_body_escapingFragment :
    escapingFragment.body coreVersions =
        .ok "api 'x:1.0:1.0'\nimplementation(\"y:1.0:$tail\")".toText ∧
      ∃ p, escapingFragment.patterns[1]? = some p ∧
        fits p "implementation(\"y:1.0:$tail\")".toText = true := by
  have hbody : escapingFragment.body coreVersions =
      .ok "api 'x:1.0:1.0'\nimplementation(\"y:1.0:$tail\")".toText :=
    eq_ok_of_toOption (by decide +kernel)
  obtain ⟨-, hlength, hfits⟩ := patterns_body (by decide +kernel) (by decide +kernel) hbody
    fun _ _ => isPlain_of_uses
  have hlt : 1 < escapingFragment.patterns.length := by
    rw [hlength]
    decide +kernel
  refine ⟨hbody, _, List.getElem?_eq_getElem hlt, ?_⟩
  exact (hfits 1 _ _ _ rfl (List.getElem?_eq_getElem hlt) (by decide +kernel)).1
    (by decide +kernel)

/-- Two dollar signs before something else are rendered as one, but the pattern asks for both. -/
theorem escape_not_fitted :
    (∀ l ∈ lines (trimLineFeeds (withTemplate "implementation 'x:$$'").template),
      isDeclaration l = true) ∧
    (withTemplate "implementation 'x:$$'").body coreVersions = .ok "implementation 'x:$'".toText ∧
    (withTemplate "implementation 'x:$$'").patterns = [["implementation 'x:$$'".toText]] ∧
    lines "implementation 'x:$'".toText = ["implementation 'x:$'".toText] ∧
    fits ["implementation 'x:$$'".toText] "implementation 'x:$'".toText = false :=
  ⟨by decide +kernel, eq_ok_of_toOption (by decide +kernel), by decide +kernel, by decide +kernel,
    by decide +kernel⟩

end Fragment

end Graft
