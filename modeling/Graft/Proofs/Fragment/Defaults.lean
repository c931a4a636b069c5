import Graft.Fragment.Declaration
import Graft.Fragment.Defaults
import Graft.Proofs.Brace.Reading
import Graft.Proofs.Edit.Characters
import Graft.Proofs.Fragment.Filling
import Graft.Text.Encoding

/-!
# The built-in fragments, filled

The values that the built-in fragments are meant for are made of letters, digits and a few marks
(`Defaults.Fills`). With such values the fragments can be rendered, and the lines of their bodies
are known up to the values in them (`Defaults.body_dependencies`, `Defaults.body_resolution`).
-/

namespace Graft

namespace Defaults

/-- Whether a character may stand in a version. -/
def isVersionChar (c : CodePoint) : Bool :=
  c.isAlphanum || c == .char '.' || c == .char '-' || c == .char '_' || c == .char '+'

/-- The version keys of the built-in fragments. -/
def keys : List Text :=
  ["browser".toText, "versionedparcelable".toText, "guava".toText, "listenablefuture".toText,
    "androidx_core".toText]

theorem core_mem_keys : "androidx_core".toText ∈ keys := by
  unfold keys
  simp only [List.mem_cons, true_or, or_true]

/-- A version set with a proper value for each of the keys. -/
def Fills (versions : VersionSet) : Prop :=
  ∀ key ∈ keys, ∃ value, versions.get? key = some value ∧ value ≠ [] ∧
    value.all isVersionChar = true

variable {versions : VersionSet} {key value : Text}

/-- The value of a key, if there is one. -/
def valueOf (versions : VersionSet) (key : Text) : Text :=
  (versions.get? key).getD []

theorem Fills.valueOf (h : Fills versions) (hkey : key ∈ keys) :
    versions.get? key = some (valueOf versions key) ∧ Defaults.valueOf versions key ≠ [] ∧
      (Defaults.valueOf versions key).all isVersionChar = true := by
  obtain ⟨value, hvalue, hne, hall⟩ := h key hkey
  rw [Defaults.valueOf, hvalue]
  exact ⟨rfl, hne, hall⟩

theorem isBlank_of_isVersionChar {c : CodePoint} (h : isVersionChar c = true) :
    Text.isBlank c = false := by
  rw [isVersionChar, Bool.or_eq_true, Bool.or_eq_true, Bool.or_eq_true, Bool.or_eq_true,
    beq_iff_eq, beq_iff_eq, beq_iff_eq, beq_iff_eq] at h
  rcases h with (((h | rfl) | rfl) | rfl) | rfl
  · exact Text.isBlank_of_isAlphanum h
  · decide
  · decide
  · decide
  · decide

/-- Other characters do not occur in a version. -/
theorem not_mem_of_all {c : CodePoint} (hc : isVersionChar c = false)
    (hvalue : value.all isVersionChar = true) : c ∉ value := by
  intro hmem
  rw [List.all_eq_true.1 hvalue c hmem] at hc
  cases hc

/-! ## The runtime dependencies -/

/-- The libraries that are depended on, each with the key of its version. -/
def libraries : List (Text × Text) :=
  [("androidx.browser:browser".toText, "browser".toText),
    ("androidx.versionedparcelable:versionedparcelable".toText, "versionedparcelable".toText),
    ("com.google.guava:guava".toText, "guava".toText),
    ("com.google.guava:listenablefuture".toText, "listenablefuture".toText)]

/-- What precedes the version on the line of a library. -/
def lineStart (library : Text) : Text :=
  "implementation '".toText ++ library ++ [.char ':']

/-- It starts with the keyword. -/
theorem lineStart_eq (library : Text) :
    lineStart library = .char 'i' :: (lineStart library).tail := by
  unfold lineStart
  rw [String.toText_ofList]
  rfl

/-- The lines of the runtime dependencies. -/
def dependencyLines (versions : VersionSet) : List Text :=
  libraries.map fun e => lineStart e.1 ++ valueOf versions e.2 ++ [.char '\'']

/-- The template in pieces. -/
def dependencyPieces : List Template.Piece :=
  libraries.flatMap fun e =>
    [.literal (lineStart e.1), .placeholder e.2, .literal [.char '\'', .char '\n']]

theorem dependencies_template :
    dependencies.template = dependencyPieces.flatMap Template.Piece.source := by
  unfold dependencies dependencyPieces libraries lineStart
  repeat rw [String.toText_ofList]
  decide +kernel

theorem key_of_mem_libraries {e : Text × Text} (he : e ∈ libraries) : e.2 ∈ keys := by
  have h : ∀ e ∈ libraries, e.2 ∈ keys := by
    unfold libraries keys
    repeat rw [String.toText_ofList]
    decide
  exact h e he

theorem isFillable_of_mem_dependencyPieces (h : Fills versions) :
    ∀ p ∈ dependencyPieces, p.IsFillable versions.get? := by
  have hliteral : ∀ e ∈ libraries, .char '$' ∉ lineStart e.1 := by
    unfold libraries lineStart
    repeat rw [String.toText_ofList]
    decide
  have hname : ∀ e ∈ libraries, Template.name? Text.isIdentifierPart e.2 = some e.2 := by
    unfold libraries
    repeat rw [String.toText_ofList]
    decide
  intro p hp
  obtain ⟨e, he, hp⟩ := List.mem_flatMap.1 hp
  rcases List.mem_cons.1 hp with rfl | hp
  · exact hliteral e he
  · rcases List.mem_cons.1 hp with rfl | hp
    · refine ⟨hname e he, ?_⟩
      rw [(h.valueOf (key_of_mem_libraries he)).1]
      rfl
    · rw [List.mem_singleton.1 hp]
      show CodePoint.char '$' ∉ [.char '\'', .char '\n']
      decide

/-- The lines are not empty, and they break nowhere. -/
theorem not_isLineBreak_of_mem_dependencyLines (h : Fills versions) {l : Text}
    (hl : l ∈ dependencyLines versions) : l ≠ [] ∧ ∀ c ∈ l, Text.isLineBreak c = false := by
  have hliteral : ∀ e ∈ libraries, ∀ c ∈ lineStart e.1, Text.isLineBreak c = false := by
    unfold libraries lineStart
    repeat rw [String.toText_ofList]
    decide
  obtain ⟨e, he, rfl⟩ := List.mem_map.1 hl
  obtain ⟨-, -, hvalue⟩ := h.valueOf (key_of_mem_libraries he)
  refine ⟨by simp, ?_⟩
  intro c hc
  rcases List.mem_append.1 hc with hc | hc
  · rcases List.mem_append.1 hc with hc | hc
    · exact hliteral e he c hc
    · have hblank := isBlank_of_isVersionChar (List.all_eq_true.1 hvalue c hc)
      cases hbreak : Text.isLineBreak c with
      | false => rfl
      | true =>
        rw [Text.isBlank_of_isLineBreak hbreak] at hblank
        cases hblank
  · rw [List.mem_singleton.1 hc]
    decide

theorem dependencyLines_ne_nil (versions : VersionSet) : dependencyLines versions ≠ [] :=
  List.cons_ne_nil _ _

theorem body_dependencies (h : Fills versions) :
    dependencies.body versions = .ok (Text.join [.char '\n'] (dependencyLines versions)) := by
  have hfilled : dependencyPieces.flatMap (Template.Piece.filled versions.get?) =
      (dependencyLines versions).flatMap (· ++ [.char '\n']) := by
    rw [dependencyPieces, dependencyLines, List.flatMap_assoc, List.flatMap_map]
    congr 1
    funext e
    simp [Template.Piece.filled, valueOf]
  have hlines : ∀ l ∈ dependencyLines versions, l ≠ [] ∧ .char '\n' ∉ l := by
    intro l hl
    obtain ⟨hne, hbreak⟩ := not_isLineBreak_of_mem_dependencyLines h hl
    refine ⟨hne, fun hmem => ?_⟩
    have := hbreak (.char '\n') hmem
    revert this
    decide
  rw [Fragment.body, Fragment.fill, dependencies_template,
    Template.fill_source (isFillable_of_mem_dependencyPieces h), hfilled]
  show Except.ok (Text.trimLineFeeds _) = _
  rw [Text.trimLineFeeds_flatMap (dependencyLines_ne_nil versions) hlines]

theorem allBlank_of_mem_dependencyLines {l : Text} (hl : l ∈ dependencyLines versions) :
    Text.allBlank l = false := by
  have hstart : ∀ e ∈ libraries, Text.allBlank (lineStart e.1) = false := by
    unfold libraries lineStart
    repeat rw [String.toText_ofList]
    decide
  obtain ⟨e, he, rfl⟩ := List.mem_map.1 hl
  have h := hstart e he
  rw [Text.allBlank] at h ⊢
  rw [List.append_assoc, List.all_append, h, Bool.false_and]

/-- The lines as they are put in, indented. -/
def dependencyBlock (versions : VersionSet) (margin : Text) : Text :=
  Text.join [.char '\n'] ((dependencyLines versions).map (margin ++ ·))

theorem indentedLines_ne_nil (versions : VersionSet) (margin : Text) :
    (dependencyLines versions).map (margin ++ ·) ≠ [] := by
  simpa using dependencyLines_ne_nil versions

theorem not_mem_dependencyBlock {c : CodePoint} {margin : Text} (h : Fills versions)
    (hc : isVersionChar c = false) (hliteral : ∀ e ∈ libraries, c ∉ lineStart e.1)
    (hquote : c ≠ .char '\'') (hbreak : c ≠ .char '\n') (hmargin : c ∉ margin) :
    c ∉ dependencyBlock versions margin := by
  apply Text.not_mem_join
  · simpa using hbreak
  · intro l hl
    obtain ⟨l', hl', rfl⟩ := List.mem_map.1 hl
    obtain ⟨e, he, rfl⟩ := List.mem_map.1 hl'
    obtain ⟨-, -, hvalue⟩ := h.valueOf (key_of_mem_libraries he)
    simp only [List.mem_append, List.mem_singleton, not_or]
    exact ⟨hmargin, ⟨hliteral e he, not_mem_of_all hc hvalue⟩, hquote⟩

theorem getLast?_dependencyBlock (versions : VersionSet) (margin : Text) :
    (dependencyBlock versions margin).getLast? = some (.char '\'') := by
  apply Text.getLast?_join (indentedLines_ne_nil versions margin)
  intro l hl
  obtain ⟨l', hl', rfl⟩ := List.mem_map.1 hl
  obtain ⟨e, he, rfl⟩ := List.mem_map.1 hl'
  rw [List.getLast?_append, List.getLast?_append]
  rfl

/-! ## The resolution of duplicate classes -/

/-- What precedes the version in the body. -/
def resolutionStart : Text :=
  ("configurations.all \x7b\n    resolutionStrategy \x7b\n" ++
    "        exclude group: 'com.google.guava', module: 'listenablefuture'\n" ++
    "        force 'androidx.core:core:").toText

/-- What follows the version in the body. -/
def resolutionEnd : Text :=
  "'\n    \x7d\n\x7d".toText

theorem resolution_template : resolution.template =
    ([.literal resolutionStart, .placeholder "androidx_core".toText,
      .literal (resolutionEnd ++ [.char '\n'])] : List Template.Piece).flatMap
        Template.Piece.source := by
  unfold resolution resolutionStart resolutionEnd
  repeat rw [String.toText_append]
  repeat rw [String.toText_ofList]
  decide +kernel

/-- The body of the resolution. -/
def resolutionBody (versions : VersionSet) : Text :=
  resolutionStart ++ (valueOf versions "androidx_core".toText ++ resolutionEnd)

theorem body_resolution (h : Fills versions) :
    resolution.body versions = .ok (resolutionBody versions) := by
  have hfillable : ∀ p ∈ ([.literal resolutionStart, .placeholder "androidx_core".toText,
        .literal (resolutionEnd ++ [.char '\n'])] : List Template.Piece),
      p.IsFillable versions.get? := by
    intro p hp
    rcases List.mem_cons.1 hp with rfl | hp
    · show .char '$' ∉ resolutionStart
      unfold resolutionStart
      repeat rw [String.toText_append]
      repeat rw [String.toText_ofList]
      decide
    · rcases List.mem_cons.1 hp with rfl | hp
      · refine ⟨by decide, ?_⟩
        rw [(h.valueOf core_mem_keys).1]
        rfl
      · rw [List.mem_singleton.1 hp]
        show .char '$' ∉ resolutionEnd ++ [.char '\n']
        unfold resolutionEnd
        rw [String.toText_ofList]
        decide
  have hfilled : ∀ (x v y : Text) (key : Text), (versions.get? key).getD [] = v →
      ([.literal x, .placeholder key, .literal (y ++ [.char '\n'])] : List Template.Piece).flatMap
        (Template.Piece.filled versions.get?) = (x ++ (v ++ y)) ++ [.char '\n'] := by
    rintro x v y key rfl
    simp [Template.Piece.filled]
  have htrim : ∀ x v y : Text, x.head? = some (.char 'c') → y.getLast? = some (.char '}') →
      Text.trimLineFeeds ((x ++ (v ++ y)) ++ [.char '\n']) = x ++ (v ++ y) := by
    intro x v y hx hy
    obtain ⟨r, rfl⟩ := List.head?_eq_some_iff.1 hx
    refine Text.trimLineFeeds_append (a := []) (b := [.char '\n']) (c := .char 'c') rfl rfl
      (by decide) rfl ?_
    intro d hd
    have hlast : (.char 'c' :: r ++ (v ++ y)).getLast? = some (.char '}') := by
      rw [List.getLast?_append, List.getLast?_append, hy]
      rfl
    rw [← Option.some.inj (hlast.symm.trans hd)]
    decide
  have hstart : resolutionStart.head? = some (.char 'c') := by
    unfold resolutionStart
    repeat rw [String.toText_append]
    repeat rw [String.toText_ofList]
    decide
  have hend : resolutionEnd.getLast? = some (.char '}') := by
    unfold resolutionEnd
    rw [String.toText_ofList]
    decide
  rw [Fragment.body, Fragment.fill, resolution_template, Template.fill_source hfillable,
    hfilled _ _ _ _ rfl]
  exact congrArg Except.ok (htrim _ _ _ hstart hend)

theorem not_mem_resolutionBody {c : CodePoint} (h : Fills versions) (hc : isVersionChar c = false)
    (hstart : c ∉ resolutionStart) (hend : c ∉ resolutionEnd) : c ∉ resolutionBody versions := by
  obtain ⟨-, -, hvalue⟩ := h.valueOf core_mem_keys
  simp only [resolutionBody, List.mem_append, not_or]
  exact ⟨hstart, not_mem_of_all hc hvalue, hend⟩

/-- What is put in for the built-in fragments can be written. -/
theorem writes_render (h : Fills versions) {f : Fragment} (hf : f ∈ fragmentSet.fragments)
    {rendered : Text} (hr : f.render versions = .ok rendered) :
    Encoding.utf8.writes rendered = true := by
  have hvalue : ∀ key ∈ keys, Encoding.utf8.writes (valueOf versions key) = true := by
    intro key hkey
    exact Encoding.writes_utf8_iff.2 fun half => not_mem_of_all rfl (h.valueOf hkey).2.2
  obtain ⟨body, hbody, rfl⟩ := exists_of_map_eq_ok hr
  rcases List.mem_cons.1 hf with rfl | hf
  · rw [body_dependencies h, Except.ok.injEq] at hbody
    subst hbody
    have hmarker : Encoding.utf8.writes dependencies.marker = true := Encoding.writes_toText _
    have hlines : ∀ l ∈ dependencyLines versions, Encoding.utf8.writes l = true := by
      have hliteral : ∀ e ∈ libraries, Encoding.utf8.writes e.1 = true := by simp [libraries]
      intro l hl
      obtain ⟨e, he, rfl⟩ := List.mem_map.1 hl
      simp [lineStart, hliteral e he, hvalue e.2 (key_of_mem_libraries he)]
    have hsep : Encoding.utf8.writes [.char '\n'] = true := rfl
    have hbody := Encoding.writes_join hsep (dependencyLines versions)
    rw [List.all_eq_true.2 hlines] at hbody
    simp [hmarker, hbody]
  · rw [List.mem_singleton.1 hf] at hbody ⊢
    rw [body_resolution h, Except.ok.injEq] at hbody
    subst hbody
    have hmarker : Encoding.utf8.writes resolution.marker = true := Encoding.writes_toText _
    simp [hmarker, resolutionBody, resolutionStart, resolutionEnd, hvalue _ core_mem_keys]

/-- What stands between the braces of the block that the resolution introduces. -/
def resolutionInner (versions : VersionSet) : Text :=
  resolutionStart.drop 20 ++ (valueOf versions "androidx_core".toText ++ resolutionEnd.dropLast)

theorem resolutionBody_eq (versions : VersionSet) : resolutionBody versions =
    "configurations.all".toText ++
    .char ' ' :: .char '{' :: (resolutionInner versions ++ [.char '}']) := by
  have hstart : resolutionStart =
      "configurations.all".toText ++ .char ' ' :: .char '{' :: resolutionStart.drop 20 := by
    unfold resolutionStart
    repeat rw [String.toText_append]
    repeat rw [String.toText_ofList]
    decide
  have hend : resolutionEnd = resolutionEnd.dropLast ++ [.char '}'] := by
    unfold resolutionEnd
    rw [String.toText_ofList]
    decide
  have hsplit : ∀ n d v e : Text, (n ++ .char ' ' :: .char '{' :: d) ++ (v ++ (e ++ [.char '}'])) =
      n ++ .char ' ' :: .char '{' :: ((d ++ (v ++ e)) ++ [.char '}']) := by simp
  rw [resolutionBody, hstart, hend, hsplit]
  rfl

/-! ## What the scanner makes of them -/

open ScanState

theorem isSought_of_isVersionChar {c : CodePoint} (h : isVersionChar c = true) :
    isSought c = false := by
  have hne : ∀ d, isVersionChar d = false → (c == d) = false := by
    intro d hd
    rw [beq_eq_false_iff_ne]
    rintro rfl
    rw [h] at hd
    cases hd
  rw [isSought, isQuote, hne _ (by decide), hne _ (by decide), hne _ (by decide),
    hne _ (by decide)]
  rfl

/-- Where a version says nothing to the scanner: in a string or a comment between marks. -/
inductive Heedless : ScanState → Prop where
  | quoted : Heedless ⟨.quoted (.char '\''), 0⟩
  | blockComment : Heedless ⟨.blockComment, 0⟩
  | tripled {q : CodePoint} (hq : isQuote q = true) : Heedless ⟨.tripled q, 0⟩

theorem Heedless.pass {s : ScanState} (hs : Heedless s) {c : CodePoint}
    (hc : isVersionChar c = true) : s.brace? c = none ∧ ∀ rest, s.next c rest = s := by
  have hne : ∀ d, isVersionChar d = false → c ≠ d := by
    rintro d hd rfl
    rw [hc] at hd
    cases hd
  cases hs with
  | quoted =>
    refine ⟨rfl, fun rest => ?_⟩
    simp [ScanState.next, hne (.char '\\') (by decide), hne (.char '\'') (by decide),
      hne (.char '\n') (by decide)]
  | blockComment =>
    refine ⟨rfl, fun rest => ?_⟩
    simp [ScanState.next, hne (.char '*') (by decide)]
  | @tripled q hq =>
    have hq' : c ≠ q := by
      rintro rfl
      have := isSought_of_isVersionChar hc
      rw [isSought, hq, Bool.or_true] at this
      cases this
    refine ⟨rfl, fun rest => ?_⟩
    simp [ScanState.next, hq']

/-- A version is passed over between two parts of which the first ends where it says nothing. -/
theorem reads_around {s s' s'' : ScanState} {before behind : Text} {bs cs : List Brace}
    (hvalue : value.all isVersionChar = true) (hne : value ≠ []) (hs : Heedless s')
    (hbefore : Reads s before bs s') (hbehind : Reads s' behind cs s'') :
    Reads s (before ++ (value ++ behind)) (bs ++ cs) s'' := by
  have hall : ∀ c ∈ value, isVersionChar c = true := List.all_eq_true.1 hvalue
  refine hbefore.append (hbehind.pass fun c hc => hs.pass (hall c hc)) ?_
  obtain ⟨c, r, rfl⟩ := List.exists_cons_of_ne_nil hne
  exact inert_cons (isSought_of_isVersionChar (hall c List.mem_cons_self)) _

/-- A part that is closed is read as the scanner reads it. -/
theorem reads_of_eq {s s' : ScanState} {t : Text} {bs : List Brace} (hs : s.IsProper)
    (h : s.kinds t [] = bs ∧ s.after t [] = s') : Reads s t bs s' := by
  obtain ⟨rfl, rfl⟩ := h
  exact reads_of_alone hs t

theorem isProper_quoted : IsProper ⟨.quoted (.char '\''), 0⟩ := by
  intro q hq
  cases hq

/-- A line of the dependencies is read from code to code. -/
theorem reads_dependencyLine (h : Fills versions) {l : Text} (hl : l ∈ dependencyLines versions) :
    Reads start l [] start := by
  have hstart : ∀ e ∈ libraries, start.kinds (lineStart e.1) [] = [] ∧
      start.after (lineStart e.1) [] = ⟨.quoted (.char '\''), 0⟩ := by
    unfold libraries lineStart
    repeat rw [String.toText_ofList]
    decide
  obtain ⟨e, he, rfl⟩ := List.mem_map.1 hl
  obtain ⟨-, hne, hvalue⟩ := h.valueOf (key_of_mem_libraries he)
  rw [List.append_assoc]
  exact reads_around hvalue hne .quoted (reads_of_eq isProper_start (hstart e he))
    (reads_of_eq isProper_quoted (by decide))

/-- And so are all of them together, indented. -/
theorem reads_dependencyBlock {margin : Text} (h : Fills versions)
    (hmargin : Text.allBlank margin = true) :
    Reads start (dependencyBlock versions margin) [] start ∧
      Inert (dependencyBlock versions margin) := by
  have hlines : ∀ l ∈ (dependencyLines versions).map (margin ++ ·),
      Reads start l [] start ∧ Inert l := by
    intro l hl
    obtain ⟨l', hl', rfl⟩ := List.mem_map.1 hl
    refine ⟨(reads_dependencyLine h hl').blanks hmargin, (inert_of_allBlank hmargin).append ?_⟩
    obtain ⟨e, he, rfl⟩ := List.mem_map.1 hl'
    rw [lineStart_eq]
    exact inert_cons (by decide) _
  exact ⟨reads_join hlines, inert_join (inert_of_allBlank (by decide)) fun l hl => (hlines l hl).2⟩

/-- The marker of the dependencies and its line feed are read from code to code. -/
theorem reads_dependencyMarker : Reads start (dependencyMarker ++ [.char '\n']) [] start :=
  reads_of_eq isProper_start (by
    unfold dependencyMarker
    rw [String.toText_ofList]
    decide)

theorem reads_resolutionInner (h : Fills versions) :
    Reads start (resolutionInner versions) [.opening, .closing] start := by
  obtain ⟨-, hne, hvalue⟩ := h.valueOf core_mem_keys
  have hbefore : Reads start (resolutionStart.drop 20) [.opening] ⟨.quoted (.char '\''), 0⟩ := by
    unfold resolutionStart
    repeat rw [String.toText_append]
    repeat rw [String.toText_ofList]
    exact reads_of_eq isProper_start (by decide)
  have hbehind : Reads ⟨.quoted (.char '\''), 0⟩ resolutionEnd.dropLast [.closing] start := by
    unfold resolutionEnd
    rw [String.toText_ofList]
    exact reads_of_eq isProper_quoted (by decide)
  exact reads_around hvalue hne .quoted hbefore hbehind

/-- The resolution as it is put in, with the line feed behind it. -/
def resolutionText (versions : VersionSet) : Text :=
  resolutionMarker ++ .char '\n' :: resolutionBody versions ++ [.char '\n']

theorem resolutionText_eq (versions : VersionSet) : resolutionText versions =
    resolutionMarker ++ .char '\n' :: resolutionStart ++
      (valueOf versions "androidx_core".toText ++ (resolutionEnd ++ [.char '\n'])) := by
  have hsplit : ∀ m x v y : Text,
      m ++ .char '\n' :: (x ++ (v ++ y)) ++ [.char '\n'] =
        m ++ .char '\n' :: x ++ (v ++ (y ++ [.char '\n'])) := by simp
  exact hsplit _ _ _ _

/-- The braces of the resolution pair up in code, and there are none in a comment or a string. -/
theorem level_resolutionText (h : Fills versions) {s : ScanState}
    (hs : s = start ∨ s = ⟨.blockComment, 0⟩ ∨ ∃ q, isQuote q = true ∧ s = ⟨.tripled q, 0⟩) :
    level 0 (s.kinds (resolutionText versions) []) = some 0 := by
  obtain ⟨-, hne, hvalue⟩ := h.valueOf core_mem_keys
  rw [resolutionText_eq]
  -- what precedes the version and what follows it, character by character
  obtain ⟨before, hbefore⟩ : ∃ before, before = resolutionMarker ++ .char '\n' :: resolutionStart :=
    ⟨_, rfl⟩
  obtain ⟨behind, hbehind⟩ : ∃ behind, behind = resolutionEnd ++ [.char '\n'] := ⟨_, rfl⟩
  rw [← hbefore, ← hbehind]
  unfold resolutionMarker resolutionStart at hbefore
  unfold resolutionEnd at hbehind
  repeat rw [String.toText_append] at hbefore
  repeat rw [String.toText_ofList] at hbefore
  rw [String.toText_ofList] at hbehind
  rcases hs with rfl | rfl | ⟨q, hq, rfl⟩
  · have hread : Reads start before [.opening, .opening] ⟨.quoted (.char '\''), 0⟩ := by
      rw [hbefore]
      exact reads_of_eq isProper_start (by decide)
    have hread' : Reads ⟨.quoted (.char '\''), 0⟩ behind [.closing, .closing] start := by
      rw [hbehind]
      exact reads_of_eq isProper_quoted (by decide)
    rw [(reads_around hvalue hne .quoted hread hread').kinds [] inert_nil]
    decide
  · have hproper : IsProper ⟨.blockComment, 0⟩ := fun q hq => by cases hq
    have hread : Reads ⟨.blockComment, 0⟩ before [] ⟨.blockComment, 0⟩ := by
      rw [hbefore]
      exact reads_of_eq hproper (by decide +kernel)
    have hread' : Reads ⟨.blockComment, 0⟩ behind [] ⟨.blockComment, 0⟩ := by
      rw [hbehind]
      exact reads_of_eq hproper (by decide)
    rw [(reads_around hvalue hne .blockComment hread hread').kinds [] inert_nil]
    rfl
  · have hproper : IsProper ⟨.tripled q, 0⟩ := by
      rintro q' hq'
      cases hq'
      exact hq
    -- there are quotes of one kind in it, but never two next to each other
    have hboth : ((⟨.tripled q, 0⟩ : ScanState).kinds before [] = [] ∧
          (⟨.tripled q, 0⟩ : ScanState).after before [] = ⟨.tripled q, 0⟩) ∧
        (⟨.tripled q, 0⟩ : ScanState).kinds behind [] = [] ∧
          (⟨.tripled q, 0⟩ : ScanState).after behind [] = ⟨.tripled q, 0⟩ := by
      rw [hbefore, hbehind]
      rcases Bool.or_eq_true_iff.1 hq with hq | hq
      · rw [eq_of_beq hq]
        decide +kernel
      · rw [eq_of_beq hq]
        decide +kernel
    have hread := reads_of_eq hproper hboth.1
    have hread' := reads_of_eq hproper hboth.2
    rw [(reads_around hvalue hne (.tripled hq) hread hread').kinds [] inert_nil]
    rfl

end Defaults

end Graft
