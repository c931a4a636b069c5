import Graft.Proofs.Edit.Anchors
import Graft.Proofs.Edit.Standing
import Graft.Proofs.Text.Occurrences

/-!
# What stands above does not matter

Nothing that is looked at to find the span of a fragment stands above the line of its marker: the
lines below are cut from there, and the braces of its block are read from the first of them, in code
whatever the scanner would make of them from the start of the text. So whole lines above that do not
hold the marker move the span and do nothing else, be they full of unbalanced braces, open strings
or the very texts that are required.

> `spanFrom_above`: the span of a fragment is moved by what stands above, and there is none if there
> was none.

Each function on the way from the marker to the end of the span has its lemma `_above` that says the
same of it.
-/

namespace Graft

variable {p t m : Text} {i j n stop : Nat} {f : Fragment}

namespace Text

theorem drop_above (p t : Text) (i : Nat) : (p ++ t).drop (i + p.length) = t.drop i := by
  rw [Nat.add_comm, List.drop_length_add_append]

theorem take_above (p t : Text) (i : Nat) : (p ++ t).take (i + p.length) = p ++ t.take i := by
  rw [Nat.add_comm, List.take_length_add_append]

theorem getElem?_above (p t : Text) (i : Nat) : (p ++ t)[i + p.length]? = t[i]? := by
  rw [List.getElem?_append_right (Nat.le_add_left _ _), Nat.add_sub_cancel]

theorem slice_above (p t : Text) (i j : Nat) :
    slice (p ++ t) (i + p.length) (j + p.length) = slice t i j := by
  rw [slice, take_above, drop_above, slice]

theorem lineEnd_above (p t : Text) (i : Nat) :
    lineEnd (p ++ t) (i + p.length) = lineEnd t i + p.length := by
  rw [lineEnd, drop_above, lineEnd, Nat.add_right_comm]

/-- A line below whole lines starts where it started without them. -/
theorem lineStart_above (hp : p = [] ∨ p.getLast? = some (.char '\n')) (hi : i ≤ t.length) :
    lineStart (p ++ t) (i + p.length) = lineStart t i + p.length := by
  obtain ⟨above, line, htake, hstart, hline, habove⟩ := exists_lineStart t i
  have hwhole : p ++ above = [] ∨ (p ++ above).getLast? = some (.char '\n') := by
    rcases habove with rfl | hlast
    · rwa [List.append_nil]
    · right
      rw [List.getLast?_append, hlast]
      rfl
  have htext : p ++ t = ((p ++ above) ++ line) ++ t.drop i := by
    rw [List.append_assoc p, ← htake, List.append_assoc, List.take_append_drop]
  have hlength : i + p.length = ((p ++ above) ++ line).length := by
    rw [List.append_assoc, ← htake, List.length_append, List.length_take, Nat.min_eq_left hi,
      Nat.add_comm]
  rw [htext, hlength, lineStart_append hwhole hline, hstart, List.length_append, Nat.add_comm]

/-- A pattern that is not in whole lines is found below them. -/
theorem search_above (hm : .char '\n' ∉ m) (hp : p = [] ∨ p.getLast? = some (.char '\n'))
    (hnone : search m p = none) (t : Text) :
    search m (p ++ t) = (search m t).map (· + p.length) := by
  rcases hp with rfl | hp
  · simp
  · obtain ⟨w, rfl⟩ := List.getLast?_eq_some_iff.1 hp
    have hw := search_eq_none_of_isInfix hnone (List.prefix_append w [.char '\n']).isInfix
    rw [List.append_assoc, List.length_append]
    exact search_line hm hw t

/-- A pattern that is not in whole lines is counted below them. -/
theorem count_above (hm : .char '\n' ∉ m) (hne : m ≠ [])
    (hp : p = [] ∨ p.getLast? = some (.char '\n'))
    (hnone : search m p = none) (t : Text) : count m (p ++ t) = count m t := by
  have hsearch := search_above hm hp hnone t
  cases ht : search m t with
  | none =>
    rw [ht] at hsearch
    rw [(count_eq_zero_iff hne _).2 (contains_eq_false_iff.2 hsearch),
      (count_eq_zero_iff hne _).2 (contains_eq_false_iff.2 ht)]
  | some i =>
    rw [ht] at hsearch
    have hdrop : (p ++ t).drop (i + p.length + m.length) = t.drop (i + m.length) := by
      rw [Nat.add_right_comm, drop_above]
    rw [count_of_search hne hsearch, count_of_search hne ht, hdrop]

end Text

open Text

/-! ## The block -/

theorem closeAfter_shift (depth : Nat) (bs : List BraceAt) (n : Nat) :
    closeAfter depth (bs.map (·.shift n)) = (closeAfter depth bs).map (· + n) := by
  fun_induction closeAfter depth bs with
  | case1 => rfl
  | case2 depth i bs ih => exact ih
  | case3 i bs => rfl
  | case4 depth i bs hdepth ih =>
    show (if depth = 1 then _ else _) = _
    rw [if_neg hdepth, ih]

/-- The partner of a brace is read from the brace on. -/
theorem closeOf_above (p t : Text) (i : Nat) : (closeOf (p ++ t) ↑(i + p.length)).toOption =
    (closeOf t ↑i).toOption.map (· + p.length) := by
  have hbraces : bracesFrom (p ++ t) (i + p.length) = (bracesFrom t i).map (·.shift p.length) := by
    rw [bracesFrom, drop_above, ScanState.scan_add]
    rfl
  unfold closeOf
  simp only [Int.toNat_natCast, Int.natCast_nonneg, decide_true, Bool.true_and, getElem?_above,
    hbraces, closeAfter_shift]
  split
  · cases closeAfter 0 (bracesFrom t i) with
    | none => rfl
    | some close => rfl
  · rfl

namespace Span

/-- A span that lies further on. -/
def shift (n : Nat) (s : Span) : Span :=
  ⟨s.start + n, s.stop + n, s.declarations⟩

theorem text_shift (s : Span) (p t : Text) : (s.shift p.length).text (p ++ t) = s.text t :=
  slice_above p t s.start s.stop

theorem linesBelow_above (p t : Text) (stop : Nat) :
    linesBelow (p ++ t) (stop + p.length) = linesBelow t stop := by
  rw [linesBelow, linesBelow, List.length_append, Nat.add_right_comm, drop_above]
  by_cases h : stop < t.length
  · rw [if_pos h, if_pos (by omega)]
  · rw [if_neg h, if_neg (by omega)]

theorem takeDeclarations_add (patterns : List Declaration.Pattern) (stop n : Nat)
    (lines : List Text) : takeDeclarations patterns (stop + n) lines =
      ((takeDeclarations patterns stop lines).1 + n, (takeDeclarations patterns stop lines).2) := by
  induction lines generalizing patterns stop with
  | nil => rfl
  | cons line below ih =>
    rw [takeDeclarations, takeDeclarations]
    cases patterns.find? (Declaration.fits · line) with
    | none => rfl
    | some _ =>
      have hstop : stop + n + 1 + line.length = stop + 1 + line.length + n := by omega
      dsimp only
      rw [hstop, ih]

theorem skipBlankLines_add (i n : Nat) (lines : List Text) :
    skipBlankLines (i + n) lines = skipBlankLines i lines + n := by
  induction lines generalizing i with
  | nil => rfl
  | cons line below ih =>
    rw [skipBlankLines, skipBlankLines]
    split
    · have hnext : i + n + line.length + 1 = i + line.length + 1 + n := by omega
      rw [hnext, ih]
    · rfl

/-- The block that follows a line ends where it did, further on. The line is only named in the
refusal. -/
theorem blockStop_above (p t : Text) (f : Fragment) (line line' stop : Nat) (block : Text) :
    (blockStop (p ++ t) f line (stop + p.length) block).toOption =
      (blockStop t f line' stop block).toOption.map (· + p.length) := by
  have hheader : skipBlankLines (stop + p.length + 1) (linesBelow (p ++ t) (stop + p.length)) =
      skipBlankLines (stop + 1) (linesBelow t stop) + p.length := by
    rw [linesBelow_above, Nat.add_right_comm, skipBlankLines_add]
  unfold blockStop
  dsimp only
  rw [hheader, drop_above]
  generalize skipBlankLines (stop + 1) (linesBelow t stop) = header
  cases headerBrace? block (t.drop header) with
  | none => rfl
  | some i =>
    have hclose := closeOf_above p t (header + i)
    have hindex : ((header + i + p.length : Nat) : Int) = ((header + p.length : Nat) : Int) + i := by
      omega
    rw [hindex, Int.natCast_add header i] at hclose
    dsimp only
    generalize closeOf (p ++ t) (((header + p.length : Nat) : Int) + i) = found at hclose
    generalize closeOf t (↑header + ↑i) = found' at hclose
    cases found with
    | error e =>
      cases found' with
      | error e' => rfl
      | ok close => cases hclose
    | ok close =>
      cases found' with
      | error e' => cases hclose
      | ok close' =>
        obtain rfl := Option.some.inj hclose
        exact congrArg some (Nat.add_right_comm _ _ _)

/-- What is left to tell a span is moved as the index at which its lines or its block end. -/
theorem ofStop_above {x y : Except Unbounded Nat}
    (h : x.toOption = y.toOption.map (· + p.length)) (start taken : Nat) :
    Except.toOption (match x with
      | .error e => .error e
      | .ok stop => .ok (Span.mk (start + p.length)
          (if (p ++ t)[stop]? == some (.char '\n') then stop + 1 else stop) taken)) =
    (Except.toOption (match y with
      | .error e => .error e
      | .ok stop => .ok (Span.mk start
          (if t[stop]? == some (.char '\n') then stop + 1 else stop) taken))).map
            (·.shift p.length) := by
  cases x with
  | error e =>
    cases y with
    | error e' => rfl
    | ok stop => cases h
  | ok stop' =>
    cases y with
    | error e => cases h
    | ok stop =>
      obtain rfl := Option.some.inj h
      dsimp only
      rw [getElem?_above]
      split
      · exact congrArg (fun stop => some (Span.mk (start + p.length) stop taken))
          (Nat.add_right_comm ..)
      · rfl

/-- The span of an occurrence is moved by whole lines that come above it. -/
theorem ofMarker_above (hp : p = [] ∨ p.getLast? = some (.char '\n')) (hi : i ≤ t.length)
    (f : Fragment) :
    (ofMarker (p ++ t) f (i + p.length)).toOption =
      (ofMarker t f i).toOption.map (·.shift p.length) := by
  unfold ofMarker
  dsimp only
  rw [lineStart_above hp hi, slice_above, lineEnd_above, linesBelow_above, takeDeclarations_add,
    ← apply_ite (· + p.length)]
  generalize takeDeclarations f.patterns (lineEnd t i) (linesBelow t (lineEnd t i)) = below
  obtain ⟨last, taken⟩ := below
  apply ofStop_above
  dsimp only
  split
  · exact blockStop_above ..
  · split
    · rfl
    · rfl

end Span

/-! ## The span and the verdict -/

section Verdict

variable {versions : VersionSet}

/-- **What stands above only moves the span of a fragment.** -/
theorem spanFrom_above (hne : f.marker ≠ []) (hfeed : .char '\n' ∉ f.marker)
    (hp : p = [] ∨ p.getLast? = some (.char '\n')) (hnone : search f.marker p = none) (t : Text) :
    (spanFrom (p ++ t) f 0).toOption =
      (spanFrom t f 0).toOption.map (Option.map (·.shift p.length)) := by
  have hsearch := search_above hfeed hp hnone t
  unfold spanFrom searchFrom
  simp only [Nat.zero_le, if_true, List.drop_zero, Nat.add_zero, Option.map_id', hsearch]
  cases ht : search f.marker t with
  | none => rfl
  | some i =>
    have hi := lt_length_of_prefix_drop hne (prefix_of_search ht)
    have hmoved := Span.ofMarker_above hp (Nat.le_of_lt hi) f
    dsimp only [Option.map_some]
    rw [toOption_map, toOption_map, hmoved, Option.map_map, Option.map_map]
    rfl

/-- There is no span only where there is no marker. -/
theorem search_eq_none_of_spanFrom (h : spanFrom t f 0 = .ok none) :
    search f.marker t = none := by
  unfold spanFrom searchFrom at h
  rw [if_pos (Nat.zero_le _), List.drop_zero] at h
  cases hsearch : search f.marker t with
  | none => rfl
  | some i =>
    rw [hsearch] at h
    obtain ⟨s, -, hs⟩ := exists_of_map_eq_ok h
    cases hs

/-- What is missing is looked for in the span. -/
theorem missingTexts_above (hne : f.marker ≠ []) (hfeed : .char '\n' ∉ f.marker)
    (hp : p = [] ∨ p.getLast? = some (.char '\n')) (hnone : search f.marker p = none) (t : Text) :
    missingTexts (p ++ t) f versions = missingTexts t f versions := by
  have hmoved := spanFrom_above hne hfeed hp hnone t
  unfold missingTexts
  congr 1
  funext required
  cases hbelow : spanFrom t f 0 with
  | error e =>
    cases habove : spanFrom (p ++ t) f 0 with
    | error e' => rfl
    | ok found =>
      rw [hbelow, habove] at hmoved
      cases hmoved
  | ok found =>
    rw [hbelow] at hmoved
    rw [eq_ok_of_toOption hmoved]
    cases found with
    | none => rfl
    | some s =>
      dsimp only [Option.map_some]
      rw [Span.text_shift]

/-- How a fragment stands is not told by what stands above. -/
theorem standing_above (hne : f.marker ≠ []) (hfeed : .char '\n' ∉ f.marker)
    (hp : p = [] ∨ p.getLast? = some (.char '\n')) (hnone : search f.marker p = none) (t : Text)
    (versions : VersionSet) : standing (p ++ t) f versions = standing t f versions := by
  rw [standing, standing, count_above hfeed hne hp hnone, missingTexts_above hne hfeed hp hnone]

/-- **Only what stands from the line of the marker on is looked at.** If two texts differ in whole
lines above that do not hold the marker, the fragment stands alike in both or its definition is
refused for the same reason, and it has a span in neither, or the same one moved by the lines that
are above. -/
theorem verdict_above {p' : Text} (hne : f.marker ≠ []) (hfeed : .char '\n' ∉ f.marker)
    (hp : p = [] ∨ p.getLast? = some (.char '\n')) (hp' : p' = [] ∨ p'.getLast? = some (.char '\n'))
    (hnone : ¬ f.marker <:+: p) (hnone' : ¬ f.marker <:+: p') (hmarker : f.marker <:+: t)
    (versions : VersionSet) :
    standing (p ++ t) f versions = standing (p' ++ t) f versions ∧
    ((∃ e e', spanFrom (p ++ t) f 0 = .error e ∧ spanFrom (p' ++ t) f 0 = .error e') ∨
      ∃ s : Span, spanFrom (p ++ t) f 0 = .ok (some (s.shift p.length)) ∧
        spanFrom (p' ++ t) f 0 = .ok (some (s.shift p'.length))) := by
  rw [← search_eq_none_iff] at hnone hnone'
  constructor
  · rw [standing_above hne hfeed hp hnone, standing_above hne hfeed hp' hnone']
  · have hmoved := spanFrom_above hne hfeed hp hnone t
    have hmoved' := spanFrom_above hne hfeed hp' hnone' t
    match hbelow : spanFrom t f 0 with
    | .error e =>
      rw [hbelow] at hmoved hmoved'
      obtain ⟨e₁, h₁⟩ := exists_of_toOption_eq_none hmoved
      obtain ⟨e₂, h₂⟩ := exists_of_toOption_eq_none hmoved'
      exact .inl ⟨e₁, e₂, h₁, h₂⟩
    | .ok none => exact absurd hmarker (search_eq_none_iff.1 (search_eq_none_of_spanFrom hbelow))
    | .ok (some s) =>
      rw [hbelow] at hmoved hmoved'
      exact .inr ⟨s, eq_ok_of_toOption hmoved, eq_ok_of_toOption hmoved'⟩

/-! ### Decoys -/

/-- A fragment that introduces a block. -/
def pinned : Fragment where
  marker := "// m".toText
  template := "all \x7b\n    force 'a:$v'\n\x7d".toText
  anchor := .endOfFile
  block := some "all".toText

/-- Its version. -/
def pinnedVersions : VersionSet := ⟨"t".toText, [("v".toText, "2".toText)]⟩

/-- A line that has all that is required, and leaves a string, a comment and two blocks open. -/
def decoyLine : Text := "force 'a:2' \x7b \" /* \x7b\n".toText

/-- The fragment with another version. -/
def outdatedText : Text := "// m\nall \x7b\n    force 'a:1'\n\x7d\n".toText

/-- Below a line that has all that is required, the fragment is stale as it was, and its span is
what it was, braces and all. -/
theorem verdict_above_decoyLine :
    pinned.marker ≠ [] ∧ .char '\n' ∉ pinned.marker ∧ decoyLine.getLast? = some (.char '\n') ∧
      ¬ pinned.marker <:+: decoyLine ∧ ¬ pinned.marker <:+: [] ∧
      pinned.marker <:+: outdatedText ∧
      standing (decoyLine ++ outdatedText) pinned pinnedVersions = .ok .stale ∧
      ∃ s, spanFrom (decoyLine ++ outdatedText) pinned 0 = .ok (some s) ∧
        s.text (decoyLine ++ outdatedText) = outdatedText := by
  have hne : pinned.marker ≠ [] := by decide
  have hfeed : .char '\n' ∉ pinned.marker := by decide
  have hlast : decoyLine.getLast? = some (.char '\n') := by decide
  have hnone : ¬ pinned.marker <:+: decoyLine := search_eq_none_iff.1 (by decide)
  have hnil : ¬ pinned.marker <:+: [] := search_eq_none_iff.1 (by decide)
  have hmarker : pinned.marker <:+: outdatedText := contains_iff.1 (by decide)
  obtain ⟨hstanding, hspan⟩ := verdict_above hne hfeed (.inr hlast) (.inl rfl) hnone hnil hmarker
    pinnedVersions
  have halone : standing ([] ++ outdatedText) pinned pinnedVersions = .ok .stale :=
    eq_ok_of_toOption (by decide +kernel)
  have hthere : spanFrom ([] ++ outdatedText) pinned 0 =
      .ok (some ⟨0, outdatedText.length, 0⟩) := eq_ok_of_toOption (by decide +kernel)
  refine ⟨hne, hfeed, hlast, hnone, hnil, hmarker, hstanding.trans halone, ?_⟩
  obtain ⟨e, e', -, herror⟩ | ⟨s, hs, hs'⟩ := hspan
  · rw [herror] at hthere
    cases hthere
  · rw [hs', Except.ok.injEq, Option.some.injEq] at hthere
    refine ⟨_, hs, ?_⟩
    have htext := Span.text_shift s [] outdatedText
    rw [hthere] at htext
    rw [Span.text_shift, ← htext]
    exact List.take_length

end Verdict

end Graft
