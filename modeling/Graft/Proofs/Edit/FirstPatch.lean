import Graft.Proofs.Edit.Below
import Graft.Proofs.Edit.Locating
import Graft.Proofs.Fragment.Defaults
import Graft.Proofs.Plan

/-!
# The first patch

What becomes of a text when the built-in fragments are put into it for the first time, below a
header and at the end (`Defaults.patchedText`). The text around them can be anything: what precedes
the header, strings and comments that are still open at the end, or a block that the brace of the
header shares its line with. Three things are to be seen of the new text.

- Its braces pair up. The scanner is in code at a structural brace, and so it is for the
  dependencies; behind them it goes on as it did in the old text (`ScanState.kinds_of_mem_braces`).
  At the end it is back in code after a blank line, or in a comment or string of several lines,
  where the braces of the resolution mean nothing (`kinds_withResolution`).
- Each marker occurs once. Neither the old text nor the values have it, and beyond the first
  occurrence the search finds no other (`search_beyond`).
- The span of each fragment holds all of it, since its lines fit the template and no line is joined
  by anything but indentation (`missingTexts_dependencies`, `missingTexts_resolution`).

> `valid_patchedText`: the new text is valid, if the line of the header is `Tidy`.
> `exists_plan`: the plan for the text is to write it, or fails where there is no header.
-/

namespace Graft

open Text

namespace Defaults

open ScanState Insertion Declaration

variable {versions : VersionSet} {t u v before margin behind m : Text} {brace : Nat}

/-! ## Markers -/

/-- A text that holds neither of the markers. -/
def Unmarked (t : Text) : Prop :=
  ∀ m ∈ fragmentSet.markers, t.contains m = false

theorem dependencies_mem : dependencies ∈ fragmentSet.fragments :=
  List.mem_cons_self

theorem resolution_mem : resolution ∈ fragmentSet.fragments :=
  List.mem_cons_of_mem _ List.mem_cons_self

theorem dependencyMarker_mem : dependencyMarker ∈ fragmentSet.markers :=
  List.mem_map_of_mem dependencies_mem

theorem resolutionMarker_mem : resolutionMarker ∈ fragmentSet.markers :=
  List.mem_map_of_mem resolution_mem

theorem dependencyMarker_ne_nil : dependencyMarker ≠ [] :=
  fragmentSet.marker_ne_nil dependencies_mem

theorem resolutionMarker_ne_nil : resolutionMarker ≠ [] :=
  fragmentSet.marker_ne_nil resolution_mem

/-- Markers start with a slash and are one line. -/
theorem exists_eq_of_mem_markers (hm : m ∈ fragmentSet.markers) :
    ∃ p, m = .char '/' :: p ∧ .char '\n' ∉ .char '/' :: p := by
  have h : ∀ m ∈ [dependencyMarker, resolutionMarker], m = .char '/' :: m.tail ∧
      .char '\n' ∉ .char '/' :: m.tail := by
    unfold dependencyMarker resolutionMarker
    repeat rw [String.toText_ofList]
    decide
  exact ⟨m.tail, h m hm⟩

theorem Unmarked.search_eq_none (h : Unmarked t) (hm : m ∈ fragmentSet.markers) :
    search m t = none :=
  contains_eq_false_iff.1 (h m hm)

theorem Unmarked.of_isInfix (h : Unmarked t) (hu : u <:+: t) : Unmarked u :=
  fun _ hm => contains_eq_false_iff.2 (search_eq_none_of_isInfix (h.search_eq_none hm) hu)

/-- A marker that is not in a text is not in it behind text without slashes, either. -/
theorem search_append_eq_none (hm : m ∈ fragmentSet.markers) (hu : .char '/' ∉ u)
    (hv : search m v = none) : search m (u ++ v) = none := by
  obtain ⟨p, rfl, -⟩ := exists_eq_of_mem_markers hm
  rw [search_append hu, hv]
  rfl

theorem Unmarked.append (h : Unmarked v) (hu : .char '/' ∉ u) : Unmarked (u ++ v) :=
  fun _ hm => contains_eq_false_iff.2 (search_append_eq_none hm hu (h.search_eq_none hm))

/-- Nor do blanks at the end bring one in, as no marker ends with a blank. -/
theorem Unmarked.append_blanks (h : Unmarked t) (hu : allBlank u = true) : Unmarked (t ++ u) := by
  have hlast : ∀ m ∈ [dependencyMarker, resolutionMarker],
      m.getLast?.any (!isBlank ·) = true := by
    unfold dependencyMarker resolutionMarker
    repeat rw [String.toText_ofList]
    decide
  intro m hm
  obtain ⟨c, hc, hsolid⟩ := (Option.any_eq_true _ _).1 (hlast m hm)
  rw [Bool.not_eq_true'] at hsolid
  exact contains_eq_false_iff.2 (search_append_blanks hc hsolid hu (h.search_eq_none hm))

theorem unmarked_of_not_mem (hu : .char '/' ∉ u) : Unmarked u := by
  have hnil : Unmarked [] := by
    intro m hm
    obtain ⟨p, rfl, -⟩ := exists_eq_of_mem_markers hm
    rfl
  have := hnil.append hu
  rwa [List.append_nil] at this

theorem unmarked_pushed (h : Unmarked t) (hmargin : .char '/' ∉ margin) :
    Unmarked (pushed margin t) := by
  intro m hm
  have hnone := h.search_eq_none hm
  obtain ⟨p, rfl, -⟩ := exists_eq_of_mem_markers hm
  exact contains_eq_false_iff.2 (search_pushed (by decide) hmargin hnone)

/-- Beyond lines without a marker and text without slashes, the search for it goes on. -/
theorem search_beyond (hm : m ∈ fragmentSet.markers) (ht : search m t = none) (hu : .char '/' ∉ u)
    (v : Text) :
    search m (t ++ .char '\n' :: (u ++ v)) = (search m v).map (· + (t.length + 1 + u.length)) := by
  obtain ⟨p, rfl, hbreak⟩ := exists_eq_of_mem_markers hm
  exact search_beyond_line hbreak ht hu v

/-! ## The new text -/

/-- A text with the dependencies put in below a header, between what precedes them and what follows
them. -/
def withDependencies (versions : VersionSet) (before margin behind : Text) : Text :=
  before ++ .char '\n' ::
    (margin ++ (dependencyMarker ++ .char '\n' :: (dependencyBlock versions margin ++ behind)))

/-- A text with the resolution put in at the end, after a blank line. -/
def withResolution (versions : VersionSet) (t : Text) : Text :=
  t ++ .char '\n' :: ([.char '\n'] ++ resolutionText versions)

/-- What becomes of a text when both fragments are put in. -/
def patchedText (versions : VersionSet) (t : Text) (brace : Nat) : Text :=
  withDependencies versions (t.take (brace + 1)) (innerMargin t brace)
    (withResolution versions (trimRight (pushed (innerMargin t brace) (t.drop (brace + 1)))))

theorem withDependencies_append (versions : VersionSet) (before margin u v : Text) :
    withDependencies versions before margin (u ++ v) =
      withDependencies versions before margin u ++ v := by
  simp [withDependencies]

theorem slash_not_mem_innerMargin (t : Text) (brace : Nat) : .char '/' ∉ innerMargin t brace := by
  intro hmem
  have hblank := List.all_eq_true.1 (allBlank_innerMargin t brace) _ hmem
  revert hblank
  decide

/-- Neither slashes nor carriage returns come in with the lines of the dependencies. -/
theorem foreign_libraries : ∀ e ∈ libraries, .char '/' ∉ lineStart e.1 ∧
    .char '\r' ∉ lineStart e.1 := by
  unfold libraries Defaults.lineStart
  repeat rw [String.toText_ofList]
  decide

/-- Nor do they with the resolution. -/
theorem foreign_resolution : (.char '/' ∉ resolutionStart ∧ .char '\r' ∉ resolutionStart) ∧
    .char '/' ∉ resolutionEnd ∧ .char '\r' ∉ resolutionEnd := by
  unfold resolutionStart resolutionEnd
  repeat rw [String.toText_append]
  repeat rw [String.toText_ofList]
  decide

theorem slash_not_mem_dependencyBlock (h : Fills versions) (hmargin : .char '/' ∉ margin) :
    .char '/' ∉ dependencyBlock versions margin :=
  not_mem_dependencyBlock h (by decide) (fun e he => (foreign_libraries e he).1) (by decide)
    (by decide) hmargin

theorem slash_not_mem_resolutionBody (h : Fills versions) : .char '/' ∉ resolutionBody versions :=
  not_mem_resolutionBody h (by decide) foreign_resolution.1.1 foreign_resolution.2.1

/-- The marker of the resolution does not come in with the dependencies. -/
theorem search_resolutionMarker (h : Fills versions) (hbefore : Unmarked before)
    (hmargin : .char '/' ∉ margin) (behind : Text) :
    search resolutionMarker (withDependencies versions before margin behind) =
      (search resolutionMarker behind).map
        (· + (withDependencies versions before margin []).length) := by
  have hm := resolutionMarker_mem
  have hmarker : search resolutionMarker dependencyMarker = none := by
    unfold dependencyMarker resolutionMarker
    repeat rw [String.toText_ofList]
    decide
  rw [withDependencies, search_beyond hm (hbefore.search_eq_none hm) hmargin,
    search_beyond hm hmarker (slash_not_mem_dependencyBlock h hmargin), Option.map_map]
  congr 1
  funext i
  simp [withDependencies]
  omega

/-- The dependencies go into the block of that name. -/
theorem insert_eq_insertInside (ht : t.contains dependencyMarker = false) (versions : VersionSet) :
    insert t dependencies versions = match blockBrace? t "dependencies".toText with
      | none => .error (.noBlock ⟨"dependencies".toText, dependencyMarker⟩)
      | some brace =>
        match dependencies.render versions with
        | .ok rendered => .ok (insertBelow t rendered brace)
        | .error e => .error (.definition e) := by
  have hblock : dependencies.anchor.isBlock = true := rfl
  have hcontains : t.contains dependencies.marker = false := ht
  rw [insert, hcontains, if_neg (by simp), if_pos hblock]
  rfl

theorem insert_dependencies (h : Fills versions) (ht : t.contains dependencyMarker = false)
    (hbrace : blockBrace? t "dependencies".toText = some brace) :
    insert t dependencies versions = .ok (withDependencies versions (t.take (brace + 1))
      (innerMargin t brace) (pushed (innerMargin t brace) (t.drop (brace + 1)))) := by
  have hrender : dependencies.render versions =
      .ok (join [.char '\n'] (dependencyMarker :: dependencyLines versions)) := by
    rw [Fragment.render, body_dependencies h, join_cons (dependencyLines_ne_nil versions)]
    rfl
  have hlines : ∀ l ∈ dependencyMarker :: dependencyLines versions,
      allBlank l = false ∧ ∀ c ∈ l, isLineBreak c = false := by
    intro l hl
    rcases List.mem_cons.1 hl with rfl | hl
    · unfold dependencyMarker
      rw [String.toText_ofList]
      decide
    · exact ⟨allBlank_of_mem_dependencyLines hl, (not_isLineBreak_of_mem_dependencyLines h hl).2⟩
  rw [insert_eq_insertInside ht, hbrace, hrender]
  dsimp only
  rw [insertBelow_eq, indent_join hlines, List.map_cons,
    join_cons (indentedLines_ne_nil versions (innerMargin t brace))]
  simp [withDependencies, dependencyBlock]

/-- The dependencies end with a quote, so that blanks are taken off only what follows them. -/
theorem trimRight_withDependencies (versions : VersionSet) (before margin behind : Text) :
    trimRight (withDependencies versions before margin behind) =
      withDependencies versions before margin (trimRight behind) := by
  have hlast : (withDependencies versions before margin []).getLast? = some (.char '\'') := by
    have hsplit : withDependencies versions before margin [] =
        (before ++ .char '\n' :: (margin ++ (dependencyMarker ++ [.char '\n']))) ++
          dependencyBlock versions margin := by
      simp [withDependencies]
    rw [hsplit, List.getLast?_append, getLast?_dependencyBlock]
    rfl
  rw [← List.nil_append behind, withDependencies_append, trimRight_append hlast (by decide),
    ← withDependencies_append, List.nil_append]
  rfl

theorem insert_resolution (h : Fills versions) (hbefore : Unmarked before)
    (hmargin : .char '/' ∉ margin) (hbehind : Unmarked behind) :
    insert (withDependencies versions before margin behind) resolution versions =
      .ok (withDependencies versions before margin
        (withResolution versions (trimRight behind))) := by
  have hcontains :
      (withDependencies versions before margin behind).contains resolution.marker = false := by
    rw [contains_eq_false_iff]
    show search resolutionMarker _ = none
    rw [search_resolutionMarker h hbefore hmargin, hbehind.search_eq_none resolutionMarker_mem]
    rfl
  have hrender : resolution.render versions =
      .ok (resolutionMarker ++ .char '\n' :: resolutionBody versions) := by
    rw [Fragment.render, body_resolution h]
    rfl
  have hne : (withDependencies versions before margin (trimRight behind)).isEmpty = false := by
    simp [withDependencies]
  have hblock : ¬ resolution.anchor.isBlock = true := Bool.false_ne_true
  rw [insert, hcontains, if_neg (by simp), if_neg hblock, insertAtEnd, hrender,
    trimRight_withDependencies, hne]
  have hsplit : ∀ x m body : Text,
      x ++ [.char '\n', .char '\n'] ++ (m ++ .char '\n' :: body) ++ [.char '\n'] =
      x ++ .char '\n' :: ([.char '\n'] ++ (m ++ .char '\n' :: body ++ [.char '\n'])) := by simp
  show Except.ok _ = Except.ok _
  rw [withResolution, withDependencies_append]
  exact congrArg Except.ok (hsplit _ _ _)

/-! ## Balance -/

/-- The dependencies bring in no braces. -/
theorem kinds_dependencies (h : Fills versions) (hmargin : allBlank margin = true)
    (hbehind : Inert behind) :
    start.kinds (.char '\n' :: (margin ++ (dependencyMarker ++
      .char '\n' :: (dependencyBlock versions margin ++ behind)))) [] = start.kinds behind [] := by
  obtain ⟨hreads, hinert⟩ := reads_dependencyBlock h hmargin
  have hblock := reads_dependencyMarker.append hreads hinert
  have hblank : allBlank (.char '\n' :: margin) = true := hmargin
  have hsplit : .char '\n' :: (margin ++ (dependencyMarker ++
      .char '\n' :: (dependencyBlock versions margin ++ behind))) = (.char '\n' :: margin) ++
        ((dependencyMarker ++ [.char '\n'] ++ dependencyBlock versions margin) ++ behind) := by
    simp
  rw [hsplit, kinds_start_blanks hblank, kinds_append, List.append_nil, hblock.kinds _ hbehind,
    hblock.after _ hbehind]
  rfl

/-- The braces of the resolution pair up, whatever the text before it leaves open. -/
theorem kinds_withResolution (h : Fills versions) (t : Text) :
    ∃ bs, start.kinds (withResolution versions t) [] = start.kinds t [] ++ bs ∧
      level 0 bs = some 0 := by
  have hinert : Inert (.char '\n' :: ([.char '\n'] ++ resolutionText versions)) :=
    inert_of_isBlank (by decide) _
  have hproper := isProper_start.after t (.char '\n' :: ([.char '\n'] ++ resolutionText versions))
  have hbounded := Bounded.after isProper_start hinert (t := t) (.inl (Nat.zero_le _))
  generalize hs : start.after t (.char '\n' :: ([.char '\n'] ++ resolutionText versions)) = s
    at hproper hbounded
  refine ⟨(s.after [.char '\n', .char '\n'] (resolutionText versions)).kinds
    (resolutionText versions) [], ?_, level_resolutionText h (after_lineFeeds hproper hbounded _)⟩
  rw [withResolution, kinds_append, List.append_nil, hs,
    kinds_congr isProper_start hinert inert_nil]
  congr 1
  show s.kinds ([.char '\n', .char '\n'] ++ resolutionText versions) [] = _
  rw [kinds_append, List.append_nil, kinds_eq_nil (by decide) (by decide), List.nil_append]

/-- What is pushed down has the braces that it had, also without the blanks at its end. -/
theorem kinds_trimRight_pushed (hmargin : allBlank margin = true) (u : Text) :
    start.kinds (trimRight (pushed margin u)) [] = start.kinds u [] ∧
      Inert (trimRight (pushed margin u)) := by
  have hpushed := kinds_pushed hmargin u
  have hinert := inert_pushed margin u
  obtain ⟨b, hb, hblank⟩ := exists_trimRight_append (pushed margin u)
  generalize trimRight (pushed margin u) = behind at hb
  rw [hb] at hpushed hinert
  rw [kinds_append_blanks isProper_start hblank] at hpushed
  exact ⟨hpushed, hinert.of_append⟩

/-- A balanced text stays so when both fragments are put in. -/
theorem balance_withDependencies (h : Fills versions) (hbalance : balance t = .ok ())
    (hbrace : ⟨brace, .opening⟩ ∈ braces t) (hmargin : allBlank margin = true)
    (hkinds : start.kinds behind [] = start.kinds (t.drop (brace + 1)) []) (hinert : Inert behind) :
    balance (withDependencies versions (t.take (brace + 1)) margin
      (withResolution versions behind)) = .ok () := by
  rw [balance_eq_ok_iff] at hbalance ⊢
  obtain ⟨bs, hbs, hlevel⟩ := kinds_withResolution h behind
  have hbehind : Inert (withResolution versions behind) :=
    hinert.append (inert_of_isBlank (by decide) _)
  -- up to the brace and behind it the braces are those of the old text
  have hold := kinds_of_mem_braces hbrace (t.drop (brace + 1))
  rw [List.take_append_drop] at hold
  rw [withDependencies, kinds_of_mem_braces hbrace, kinds_dependencies h hmargin hbehind, hbs,
    hkinds, ← List.cons_append, ← List.append_assoc, ← hold, level_append, hbalance]
  exact hlevel

/-! ## Markers that occur once -/

theorem search_dependencyMarker (hbefore : Unmarked before) (hmargin : .char '/' ∉ margin)
    (versions : VersionSet) (behind : Text) :
    search dependencyMarker (withDependencies versions before margin behind) =
      some (before ++ .char '\n' :: margin).length := by
  have hm := dependencyMarker_mem
  rw [withDependencies, search_beyond hm (hbefore.search_eq_none hm) hmargin, search_prefix]
  simp
  omega

theorem withDependencies_eq (versions : VersionSet) (before margin behind : Text) :
    withDependencies versions before margin behind = (before ++ .char '\n' :: margin) ++
      (dependencyMarker ++ .char '\n' :: (dependencyBlock versions margin ++ behind)) := by
  simp [withDependencies]

theorem count_dependencyMarker (h : Fills versions) (hbefore : Unmarked before)
    (hmargin : .char '/' ∉ margin) (hbehind : search dependencyMarker behind = none) :
    count dependencyMarker (withDependencies versions before margin behind) = 1 := by
  have hm := dependencyMarker_mem
  have hfirst := search_dependencyMarker hbefore hmargin versions behind
  have hnil := (unmarked_of_not_mem List.not_mem_nil).search_eq_none hm
  rw [withDependencies_eq] at hfirst ⊢
  apply count_eq_one dependencyMarker_ne_nil hfirst
  rw [← List.nil_append (CodePoint.char '\n' :: _),
    search_beyond hm hnil (slash_not_mem_dependencyBlock h hmargin), hbehind]
  rfl

/-- The marker of the dependencies does not come in with the resolution. -/
theorem search_dependencyMarker_withResolution (h : Fills versions)
    (ht : search dependencyMarker t = none) :
    search dependencyMarker (withResolution versions t) = none := by
  have hm := dependencyMarker_mem
  have hnil := (unmarked_of_not_mem List.not_mem_nil).search_eq_none hm
  have hmarker : search dependencyMarker resolutionMarker = none := by
    unfold dependencyMarker resolutionMarker
    repeat rw [String.toText_ofList]
    decide
  have hbody : .char '/' ∉ resolutionBody versions ++ [.char '\n'] := by
    rw [List.mem_append, not_or]
    exact ⟨slash_not_mem_resolutionBody h, by decide⟩
  have hresolution : search dependencyMarker (resolutionText versions) = none := by
    have hrest := search_beyond hm hmarker hbody []
    rw [List.append_nil, hnil] at hrest
    rw [resolutionText, List.append_assoc, List.cons_append]
    exact hrest
  rw [withResolution, search_beyond hm ht (by decide), hresolution]
  rfl

theorem withResolution_eq (versions : VersionSet) (t : Text) :
    withResolution versions t = (t ++ [.char '\n', .char '\n']) ++ resolutionText versions := by
  simp [withResolution]

/-- The resolution is at the end, wherever the dependencies are. -/
theorem withDependencies_withResolution (versions : VersionSet) (before margin behind : Text) :
    withDependencies versions before margin (withResolution versions behind) =
      withResolution versions (withDependencies versions before margin behind) := by
  rw [withResolution, withDependencies_append]
  rfl

theorem search_withResolution (versions : VersionSet) (ht : search resolutionMarker t = none) :
    search resolutionMarker (withResolution versions t) =
      some (t ++ [.char '\n', .char '\n'] : Text).length := by
  rw [withResolution, search_beyond resolutionMarker_mem ht (by decide), resolutionText,
    List.append_assoc, search_prefix]
  simp

theorem count_resolutionMarker (h : Fills versions) (ht : search resolutionMarker t = none) :
    count resolutionMarker (withResolution versions t) = 1 := by
  have hslash := slash_not_mem_resolutionBody h
  have hfirst := search_withResolution versions ht
  rw [withResolution_eq, resolutionText] at hfirst ⊢
  generalize t ++ [.char '\n', .char '\n'] = x at hfirst ⊢
  generalize resolutionBody versions = body at hslash hfirst ⊢
  have hbody : .char '/' ∉ .char '\n' :: (body ++ [.char '\n']) := by simp [hslash]
  rw [List.append_assoc, List.cons_append] at hfirst ⊢
  exact count_eq_one resolutionMarker_ne_nil hfirst
    ((unmarked_of_not_mem hbody).search_eq_none resolutionMarker_mem)

/-! ## Spans that hold everything -/

theorem isValueChar_of_isVersionChar {c : CodePoint} (h : isVersionChar c = true) :
    isValueChar c = true := by
  have hne : ∀ d, isVersionChar d = false → (c != d) = true := by
    intro d hd
    rw [bne_iff_ne]
    rintro rfl
    rw [h] at hd
    cases hd
  rw [isValueChar, hne _ (by decide), hne _ (by decide), hne _ (by decide)]
  rfl

theorem patterns_dependencies :
    dependencies.patterns = libraries.map fun e => [lineStart e.1, [.char '\'']] := by
  unfold Fragment.patterns dependencies libraries Defaults.lineStart
  repeat rw [String.toText_ofList]
  decide

/-- The lines of the dependencies fit the patterns one by one. -/
theorem fits_dependencies (h : Fills versions) (hmargin : margin.all isIndent = true) :
    List.Forall₂ (fun p l => fits p l = true) dependencies.patterns
      ((dependencyLines versions).map (margin ++ ·)) := by
  rw [patterns_dependencies, dependencyLines, List.map_map, List.forall₂_map_left_iff,
    List.forall₂_map_right_iff, List.forall₂_same]
  intro e he
  obtain ⟨-, -, hvalue⟩ := h.valueOf (key_of_mem_libraries he)
  apply fits_indent hmargin
  have hdrop : dropIndent (lineStart e.1 ++ valueOf versions e.2 ++ [.char '\'']) =
      lineStart e.1 ++ (valueOf versions e.2 ++ ([.char '\''] ++ [])) := by
    rw [dropIndent, lineStart_eq]
    simp [isIndent]
  rw [fits, hdrop]
  apply fitsParts_cons
  · rw [List.all_eq_true]
    intro c hc
    exact isValueChar_of_isVersionChar (List.all_eq_true.1 hvalue c hc)
  · exact fitsParts_last rfl

/-- The dependencies are laid as their span takes them. -/
theorem laid_dependencies (h : Fills versions) (hmargin : margin.all isIndent = true) :
    Laid dependencies (.char '\n' :: dependencyBlock versions margin) := by
  have hlines : ∀ l ∈ (dependencyLines versions).map (margin ++ ·), .char '\n' ∉ l := by
    intro l hl
    obtain ⟨l', hl', rfl⟩ := List.mem_map.1 hl
    rw [List.mem_append, not_or]
    refine ⟨not_mem_of_isIndent (by decide) hmargin, fun hmem => ?_⟩
    have hbreak := (not_isLineBreak_of_mem_dependencyLines h hl').2 _ hmem
    revert hbreak
    decide
  rw [dependencyBlock, ← flatMap_cons_lineFeed (indentedLines_ne_nil versions margin)]
  exact .flat rfl (indentedLines_ne_nil versions margin) (fits_dependencies h hmargin) hlines

/-- The resolution is laid as its span takes it. -/
theorem laid_resolution (h : Fills versions) :
    Laid resolution (.char '\n' :: resolutionBody versions) := by
  have hname : "configurations.all".toText = .char 'c' :: "onfigurations.all".toText := by
    repeat rw [String.toText_ofList]
    rfl
  have hpatterns : resolution.patterns = [] := by
    unfold Fragment.patterns resolution
    repeat rw [String.toText_ofList]
    decide
  have hhead : IsHeader "configurations.all".toText ("configurations.all".toText ++ [.char ' ']) :=
    ⟨[], [.char ' '], rfl, rfl, by decide⟩
  have hfeed : .char '\n' ∉ "configurations.all".toText ++ [.char ' '] := by
    rw [String.toText_ofList]
    decide
  have hblock : resolution.block = some "configurations.all".toText := rfl
  have hfits : List.Forall₂ (fun p l => fits p l = true) resolution.patterns [] := by
    rw [hpatterns]
    exact .nil
  have hsplit : .char '\n' :: resolutionBody versions =
      .char '\n' :: ("configurations.all".toText ++ [.char ' '] ++ .char '{' ::
        (resolutionInner versions ++ [.char '}'])) := by
    rw [resolutionBody_eq]
    simp
  rw [hname] at hhead hblock
  rw [hsplit]
  exact .block hblock hhead hfeed hfits (by simp) (reads_resolutionInner h) rfl

/-- Nothing is missing from the dependencies, unless something else stands on their last line. -/
theorem missingTexts_dependencies (h : Fills versions) (hbefore : Unmarked before)
    (hmargin : margin.all isIndent = true) (hbehind : OpensIndented behind) :
    missingTexts (withDependencies versions before margin behind) dependencies versions =
      .ok [] := by
  have hslash : .char '/' ∉ margin := not_mem_of_isIndent (by decide) hmargin
  have hsearch := search_dependencyMarker hbefore hslash versions behind
  have ht : withDependencies versions before margin behind = (before ++ .char '\n' :: margin) ++
      (dependencyMarker ++ ((.char '\n' :: dependencyBlock versions margin) ++ behind)) := by
    simp [withDependencies]
  rw [ht] at hsearch ⊢
  refine (laid_dependencies h hmargin).missingTexts_eq_nil
    (fragmentSet.lineFeed_not_mem_marker dependencies_mem) dependencyMarker_ne_nil hbehind hsearch
    rfl (body_dependencies h) ?_
  intro l hl
  rw [lines_join fun l hl => not_isLineBreak_of_mem_dependencyLines h hl] at hl
  have hindented : margin ++ l <:+: dependencyBlock versions margin :=
    infix_join _ (List.mem_map_of_mem hl)
  exact ((List.suffix_append margin l).isInfix.trans hindented).trans
    (List.suffix_cons (CodePoint.char '\n') _).isInfix

/-- Nothing is missing from the resolution at the end of a text. -/
theorem missingTexts_resolution (h : Fills versions) (ht : search resolutionMarker t = none) :
    missingTexts (withResolution versions t) resolution versions = .ok [] := by
  have hsearch := search_withResolution versions ht
  have hsplit : ∀ m body : Text,
      t ++ .char '\n' :: ([.char '\n'] ++ (m ++ .char '\n' :: body ++ [.char '\n'])) =
      (t ++ [.char '\n', .char '\n']) ++ (m ++ ((.char '\n' :: body) ++ [.char '\n'])) := by simp
  rw [withResolution, resolutionText, hsplit] at hsearch ⊢
  exact (laid_resolution h).missingTexts_eq_nil
    (fragmentSet.lineFeed_not_mem_marker resolution_mem) resolutionMarker_ne_nil rfl hsearch rfl
    (body_resolution h) fun l hl =>
      (infix_of_mem_lines hl).trans (List.suffix_cons (CodePoint.char '\n') _).isInfix

/-! ## The plan -/

/-- The line that holds a brace is indented by spaces and tabs, and where there are only blanks
behind the brace, these are spaces and tabs, too. -/
structure Tidy (t : Text) (brace : Nat) : Prop where
  indentation : ((slice t (Text.lineStart t brace) brace).takeWhile isBlank).all isIndent = true
  trailing : allBlank ((t.drop (brace + 1)).takeWhile (· ≠ .char '\n')) = true →
    ((t.drop (brace + 1)).takeWhile (· ≠ .char '\n')).all isIndent = true

theorem Tidy.all_isIndent (h : Tidy t brace) : (innerMargin t brace).all isIndent = true := by
  rw [innerMargin, List.all_append, h.indentation]
  decide

/-- What is left of the text behind the brace keeps off the last line of the dependencies. -/
theorem Tidy.opensIndented (h : Tidy t brace) :
    OpensIndented (trimRight (pushed (innerMargin t brace) (t.drop (brace + 1)))) := by
  obtain ⟨b, hb, -⟩ := exists_trimRight_append (pushed (innerMargin t brace) (t.drop (brace + 1)))
  have hpushed := opensIndented_pushed h.trailing (innerMargin t brace)
  rw [hb] at hpushed
  exact hpushed.of_append

/-- What stands around the dependencies in the new text has no markers. -/
theorem Unmarked.around (h : Unmarked t) (brace : Nat) : Unmarked (t.take (brace + 1)) ∧
    Unmarked (pushed (innerMargin t brace) (t.drop (brace + 1))) ∧
    Unmarked (trimRight (pushed (innerMargin t brace) (t.drop (brace + 1)))) := by
  have hpushed : Unmarked (pushed (innerMargin t brace) (t.drop (brace + 1))) :=
    unmarked_pushed (h.of_isInfix (List.drop_suffix _ _).isInfix) (slash_not_mem_innerMargin t brace)
  refine ⟨h.of_isInfix (List.take_prefix _ _).isInfix, hpushed, ?_⟩
  obtain ⟨b, hb, -⟩ := exists_trimRight_append (pushed (innerMargin t brace)
    (t.drop (brace + 1)))
  rw [hb] at hpushed
  exact hpushed.of_isInfix (List.prefix_append _ _).isInfix

/-- With both fragments in it, a text is valid if the dependencies are indented by spaces and tabs,
and nothing else stands on their last line. -/
theorem valid_withDependencies (h : Fills versions) (hbalance : balance t = .ok ())
    (hbrace : ⟨brace, .opening⟩ ∈ braces t) (hmargin : margin.all isIndent = true)
    (hbefore : Unmarked (t.take (brace + 1))) (hbehind : Unmarked behind)
    (hopens : OpensIndented behind) (hinert : Inert behind)
    (hkinds : start.kinds behind [] = start.kinds (t.drop (brace + 1)) []) :
    Plan.Valid fragmentSet versions (withDependencies versions (t.take (brace + 1)) margin
      (withResolution versions behind)) := by
  have hslash : .char '/' ∉ margin := not_mem_of_isIndent (by decide) hmargin
  have hresolution : search resolutionMarker
      (withDependencies versions (t.take (brace + 1)) margin behind) = none := by
    rw [search_resolutionMarker h hbefore hslash, hbehind.search_eq_none resolutionMarker_mem]
    rfl
  refine ⟨balance_withDependencies h hbalance hbrace (allBlank_of_isIndent hmargin) hkinds hinert,
    ?_, ?_⟩
  · intro f hf
    rcases List.mem_cons.1 hf with rfl | hf
    · exact count_dependencyMarker h hbefore hslash (search_dependencyMarker_withResolution h
        (hbehind.search_eq_none dependencyMarker_mem))
    · rw [List.mem_singleton.1 hf, withDependencies_withResolution]
      exact count_resolutionMarker h hresolution
  · intro f hf
    rcases List.mem_cons.1 hf with rfl | hf
    · exact missingTexts_dependencies h hbefore hmargin (hopens.append _)
    · rw [List.mem_singleton.1 hf, withDependencies_withResolution]
      exact missingTexts_resolution h hresolution

/-- The new text is valid, if the line of the header is tidy. -/
theorem valid_patchedText (h : Fills versions) (hbalance : balance t = .ok ()) (ht : Unmarked t)
    (hbrace : blockBrace? t "dependencies".toText = some brace) (htidy : Tidy t brace) :
    Plan.Valid fragmentSet versions (patchedText versions t brace) := by
  obtain ⟨hbefore, -, hbehind⟩ := ht.around brace
  obtain ⟨hkinds, hinert⟩ :=
    kinds_trimRight_pushed (allBlank_innerMargin t brace) (t.drop (brace + 1))
  exact valid_withDependencies h hbalance (mem_braces_of_blockBrace? hbrace) htidy.all_isIndent
    hbefore hbehind htidy.opensIndented hinert hkinds

/-- A carriage return comes neither from the fragments nor from the values. -/
theorem return_not_mem_withDependencies (h : Fills versions) (hbefore : .char '\r' ∉ before)
    (hmargin : .char '\r' ∉ margin) (hbehind : .char '\r' ∉ behind) :
    .char '\r' ∉ withDependencies versions before margin (withResolution versions behind) := by
  have hmarkers : .char '\r' ∉ dependencyMarker ∧ .char '\r' ∉ resolutionMarker := by
    unfold dependencyMarker resolutionMarker
    repeat rw [String.toText_ofList]
    decide
  have hblock : .char '\r' ∉ dependencyBlock versions margin :=
    not_mem_dependencyBlock h (by decide) (fun e he => (foreign_libraries e he).2) (by decide)
      (by decide) hmargin
  have hbody : .char '\r' ∉ resolutionBody versions :=
    not_mem_resolutionBody h (by decide) foreign_resolution.1.2 foreign_resolution.2.2
  simp only [withDependencies, withResolution, resolutionText, List.mem_append, List.mem_cons,
    List.not_mem_nil, or_false, not_or]
  exact ⟨hbefore, by decide, hmargin, hmarkers.1, by decide, hblock, hbehind, by decide, by decide,
    ⟨hmarkers.2, by decide, hbody⟩, by decide⟩

theorem return_not_mem_patchedText (h : Fills versions) (ht : .char '\r' ∉ t)
    (htidy : Tidy t brace) :
    .char '\r' ∉ patchedText versions t brace := by
  have hmargin : .char '\r' ∉ innerMargin t brace :=
    not_mem_of_isIndent (by decide) htidy.all_isIndent
  have hdrop : .char '\r' ∉ t.drop (brace + 1) :=
    fun hmem => ht ((List.drop_sublist _ _).subset hmem)
  exact return_not_mem_withDependencies h (fun hmem => ht ((List.take_sublist _ _).subset hmem))
    hmargin (not_mem_dropRight (not_mem_pushed (by decide) hmargin hdrop) isBlank)

/-- In a text without markers, both fragments are absent. -/
theorem standings_of_unmarked (ht : Unmarked t) (versions : VersionSet) : ∃ states,
    standings t fragmentSet.fragments versions = .ok states ∧
      Plan.NoneStale fragmentSet states := by
  have habsent : ∀ f ∈ fragmentSet.fragments, standing t f versions = .ok .absent := by
    intro f hf
    rw [standing_eq_absent_iff, count_eq_zero_iff (fragmentSet.marker_ne_nil hf)]
    exact ht _ (List.mem_map_of_mem hf)
  obtain ⟨states, hstates⟩ := exists_standings fun f hf => ⟨_, habsent f hf⟩
  refine ⟨states, hstates, ?_⟩
  intro f hf
  obtain ⟨s, hs, hget⟩ := get?_standings hstates hf
  rw [habsent f hf, Except.ok.injEq] at hs
  rw [hget, ← hs]
  simp

/-- The fragments are put in as they are declared, whichever of them are missing. -/
theorem insertionOrder_eq (markers : List Text) : fragmentSet.insertionOrder markers =
    .ok ([dependencies, resolution].filter fun f => markers.elem f.marker) := by
  have hself : ∀ f ∈ [dependencies, resolution], f.waitsFor f = false := by
    unfold dependencies resolution dependencyMarker resolutionMarker
    repeat rw [String.toText_ofList]
    decide
  have hlater : dependencies.waitsFor resolution = false := by
    unfold dependencies resolution dependencyMarker resolutionMarker
    repeat rw [String.toText_ofList]
    decide
  have hwait : [dependencies, resolution].Pairwise fun f g => f.waitsFor g = false :=
    List.pairwise_pair.2 hlater
  exact Plan.takeReady_eq (fun f hf => hself f (List.mem_of_mem_filter hf)) (hwait.filter _)
    (Nat.le_refl _)

/-- The fragments whose markers are missing are put in, the dependencies first. -/
theorem complete_eq (versions : VersionSet) (t : Text) : Plan.complete fragmentSet versions t =
    Plan.insertAll versions t ([dependencies, resolution].filter fun f => !t.contains f.marker) := by
  have hfilter : ([dependencies, resolution].filter fun f =>
      (Plan.missingMarkers fragmentSet t).elem f.marker) =
        [dependencies, resolution].filter fun f => !t.contains f.marker := by
    apply List.filter_congr
    intro f hf
    rw [Bool.eq_iff_iff, List.elem_iff, Plan.missingMarkers, List.mem_filter]
    exact ⟨fun h => h.2, fun h => ⟨List.mem_map_of_mem hf, h⟩⟩
  rw [Plan.complete, insertionOrder_eq, hfilter]

/-- In a text without markers, both fragments are missing. -/
theorem missing_of_unmarked (ht : Unmarked t) :
    ([dependencies, resolution].filter fun f => !t.contains f.marker) =
      [dependencies, resolution] := by
  rw [List.filter_eq_self]
  intro f hf
  rw [ht _ (List.mem_map_of_mem hf)]
  rfl

/-- The plan for a text without markers is to put both fragments in, and fails if there is no header
to put the dependencies below. -/
theorem exists_plan (h : Fills versions) (hbalance : balance t = .ok ()) (ht : Unmarked t) :
    ∃ plan, Plan.ofText fragmentSet versions t = .ok plan ∧ plan.adds = true ∧
      plan.outcome = match blockBrace? t "dependencies".toText with
        | none => .error (.noAnchor ⟨"dependencies".toText, dependencyMarker⟩)
        | some brace => Plan.settle fragmentSet versions t (patchedText versions t brace) := by
  obtain ⟨states, hstates, hnone⟩ := standings_of_unmarked ht versions
  have hplan : ∃ plan, Plan.ofText fragmentSet versions t = .ok plan ∧ plan.states = states := by
    rw [Plan.ofText, hbalance]
    dsimp only
    rw [hstates]
    exact ⟨_, rfl, rfl⟩
  obtain ⟨plan, hplan, rfl⟩ := hplan
  obtain ⟨-, -, -, -, houtcome⟩ := Plan.ofText_eq_ok hplan
  refine ⟨plan, hplan, ?_, ?_⟩
  · cases hadds : plan.adds with
    | true => rfl
    | false =>
      have hnil := (Plan.adds_eq_false_iff hplan).1 hadds
      have hmem : dependencyMarker ∈ Plan.missingMarkers fragmentSet t :=
        List.mem_filter.2 ⟨dependencyMarker_mem, by rw [ht _ dependencyMarker_mem]; rfl⟩
      rw [hnil] at hmem
      cases hmem
  · rw [houtcome, Plan.edit_of_noneStale hnone, complete_eq, missing_of_unmarked ht]
    cases hbrace : blockBrace? t "dependencies".toText with
    | none =>
      have hinsert : insert t dependencies versions =
          .error (.noBlock ⟨"dependencies".toText, dependencyMarker⟩) := by
        rw [insert_eq_insertInside (ht _ dependencyMarker_mem), hbrace]
      rw [Plan.insertAll, hinsert]
      rfl
    | some brace =>
      have hslash := slash_not_mem_innerMargin t brace
      obtain ⟨hbefore, hpushed, -⟩ := ht.around brace
      rw [Plan.insertAll, insert_dependencies h (ht _ dependencyMarker_mem) hbrace]
      dsimp only
      rw [Plan.insertAll, insert_resolution h hbefore hslash hpushed]
      rfl

/-- A text is valid after the patch and not before. -/
theorem settle_patchedText (h : Fills versions) (hbalance : balance t = .ok ()) (ht : Unmarked t)
    (hbrace : blockBrace? t "dependencies".toText = some brace) (htidy : Tidy t brace) :
    Plan.settle fragmentSet versions t (patchedText versions t brace) =
      .ok (some (patchedText versions t brace)) := by
  have hvalid := valid_patchedText h hbalance ht hbrace htidy
  have hne : patchedText versions t brace ≠ t := by
    intro heq
    have hone := hvalid.once dependencies List.mem_cons_self
    have hzero := (count_eq_zero_iff dependencyMarker_ne_nil t).2 (ht _ dependencyMarker_mem)
    rw [heq] at hone
    rw [show dependencies.marker = dependencyMarker from rfl, hzero] at hone
    cases hone
  rw [Plan.settle_of_valid hvalid, if_neg hne]

end Defaults

end Graft
