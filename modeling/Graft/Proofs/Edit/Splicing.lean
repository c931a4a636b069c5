import Graft.Proofs.Brace.Realigning
import Graft.Proofs.Edit.Anchors
import Graft.Proofs.Edit.Below
import Graft.Proofs.Steps

/-!
# Splicing braces

What is put into a text could change the meaning of the text around it, and the other way round: a
comment or a string that is open at a seam swallows what follows. It does not, because there is a
line feed at every seam. Before the fragment it is read in code, right below a brace, or there are
two of them, which end every string of one line (`ScanState.after_lineFeeds_eq_start`). Behind the
fragment, the rest of a balanced text goes on in a new line (`Insertion.exists_pushed`), so that a
fragment may end in a comment (`ScanState.Closing`). And within it, margins are no part of what is
read (`Insertion.exists_realigned`).

> `insert_splices`: the braces of the fragment come in right behind the brace of its block, or at
> the end, and the text stays balanced.
-/

namespace Graft

open Text Insertion ScanState

variable {f : Fragment} {versions : VersionSet} {document document' rendered margin rest t u w : Text}
  {bs cs ks : List Brace} {b : Text} {n m : Nat}

/-- What the scanner is reading at the end of a text. -/
def endMode (t : Text) : ScanMode :=
  (start.after t []).mode

/-- The scanner is not in a string at the end of a text, and not in a comment of several lines. -/
def EndsInCode (t : Text) : Prop :=
  endMode t = .code ∨ endMode t = .lineComment

instance (t : Text) : Decidable (EndsInCode t) :=
  inferInstanceAs (Decidable (_ ∨ _))

/-! ## Up to the end of the line -/

namespace ScanState

variable {s : ScanState}

theorem Steady.after (h : Steady s (t ++ rest)) : Steady (s.after t rest) rest := by
  induction t generalizing s with
  | nil => exact h
  | cons c r ih => exact ih h.next

/-- The next line feed leads to code. -/
structure Closing (s : ScanState) : Prop where
  skip : s.skip = 0
  lineFeed : ∀ rest, s.next (.char '\n') rest = start

/-- From there on, a text is read as in code, if nothing but blanks is left of its first line. -/
theorem Closing.kinds (h : Closing s) (hsteady : Steady s []) (hb : b.IsMargin) (u : Text) :
    s.kinds (b ++ .char '\n' :: u) [] = start.kinds (b ++ .char '\n' :: u) [] := by
  have hfeed : ∀ s : ScanState, s.brace? (.char '\n') = none := by
    intro s
    rw [brace?]
    split <;> rfl
  have hblank : allBlank b = true := List.all_eq_true.2 fun c hc => (hb c hc).1
  rw [(hsteady.pass h.skip hb _ _).1, kinds_start_blanks hblank, ScanState.kinds, ScanState.kinds,
    hfeed, hfeed, h.lineFeed]
  rfl

theorem bounded_after (t : Text) : Bounded (start.after t []) 0 :=
  Bounded.after isProper_start inert_nil (.inl (Nat.zero_le _))

theorem closing_of_endsInCode (h : EndsInCode t) : Closing (start.after t []) := by
  have hbounded := bounded_after t
  generalize hs : start.after t [] = s at hbounded
  obtain ⟨mode, skip⟩ := s
  rw [EndsInCode, endMode, hs] at h
  rcases h with rfl | rfl
  · obtain rfl : skip = 0 := by simpa [Bounded] using hbounded
    exact ⟨rfl, fun rest => rfl⟩
  · obtain rfl : skip = 0 := by simpa [Bounded] using hbounded
    exact ⟨rfl, fun rest => rfl⟩

/-- If a text ends in code with a line feed, this ends what was open before it. -/
theorem closing_of_endsInCode_lineFeed (h : EndsInCode (t ++ [.char '\n'])) :
    Closing (start.after t []) := by
  have hbounded := bounded_after t
  have hquotes := (steady_start (t ++ [])).after.quotes
  have hinert : start.after t [.char '\n'] = start.after t [] :=
    after_congr isProper_start (inert_of_isBlank (by decide) []) inert_nil t
  rw [EndsInCode, endMode, after_append, List.append_nil, hinert] at h
  generalize start.after t [] = s at h hbounded hquotes
  obtain ⟨mode, skip⟩ := s
  rcases hbounded with hskip | ⟨q, heq⟩
  · obtain rfl : skip = 0 := Nat.le_zero.1 hskip
    cases mode with
    | code => exact ⟨rfl, fun rest => rfl⟩
    | lineComment => exact ⟨rfl, fun rest => rfl⟩
    | blockComment => rcases h with h | h <;> cases h
    | quoted q => exact ⟨rfl, fun rest => by simp [ScanState.next, start]⟩
    | tripled q =>
      have hne : .char '\n' ≠ q := by
        rintro rfl
        have hquote := hquotes (.char '\n') (.inr rfl)
        cases hquote
      rw [ScanState.after] at h
      simp [ScanState.next, hne, ScanState.after] at h
  · -- behind the hidden line feed the string would go on
    cases heq
    rcases h with h | h <;> cases h

/-- Blanks do not end a comment or a string of several lines. -/
theorem after_blanks_of_mode {mode : ScanMode} (h : mode = .blockComment ∨
      ∃ q, isQuote q = true ∧ mode = .tripled q) (hb : allBlank b = true) (rest : Text) :
    ScanState.after ⟨mode, 0⟩ b rest = ⟨mode, 0⟩ := by
  induction b with
  | nil => rfl
  | cons c r ih =>
    obtain ⟨hc, hr⟩ := Bool.and_eq_true_iff.1 hb
    have hnext : ∀ rest, ScanState.next ⟨mode, 0⟩ c rest = ⟨mode, 0⟩ := by
      intro rest
      rcases h with rfl | ⟨q, hq, rfl⟩
      · have hne : c ≠ .char '*' := by
          rintro rfl
          cases hc
        simp [ScanState.next, hne]
      · have hne : c ≠ q := by
          rintro rfl
          rcases Bool.or_eq_true_iff.1 hq with hq | hq
          · rw [eq_of_beq hq] at hc
            cases hc
          · rw [eq_of_beq hq] at hc
            cases hc
        simp [ScanState.next, hne]
    rw [ScanState.after, hnext]
    exact ih hr

end ScanState

/-! ## Indented lines -/

namespace Insertion

theorem lines_lineFeed (h : ∀ c ∈ w, isLineBreak c = true → c = .char '\n') :
    lines (w ++ [.char '\n']) = splitLines w := by
  induction w with
  | nil => rfl
  | cons c r ih =>
    have hreturn : c ≠ .char '\r' := by
      rintro rfl
      have := h (.char '\r') List.mem_cons_self (by decide)
      revert this
      decide
    rw [List.cons_append, lines.eq_3 _ _ (fun _ heq _ => hreturn heq),
      ih fun d hd => h d (List.mem_cons_of_mem c hd)]
    show _ = split (.char '\n') (c :: r)
    rw [split]
    by_cases hc : c = .char '\n'
    · rw [hc, if_pos rfl, if_pos (by decide)]
      rfl
    · rw [if_neg hc, if_neg fun hbreak => hc (h c List.mem_cons_self hbreak)]
      rfl

/-- Indented lines are realigned, behind a line feed that makes the first one a line like the others,
and without a line feed at the end. -/
theorem exists_realigned (hbreaks : ∀ c ∈ rendered, isLineBreak c = true → c = .char '\n')
    (hmargin : margin.IsMargin) : ∃ w, (rendered = w ∨ rendered = w ++ [.char '\n']) ∧
      Realigned (.char '\n' :: w) (.char '\n' :: indent margin rendered) := by
  obtain ⟨w, hw, hindent⟩ : ∃ w, (rendered = w ∨ rendered = w ++ [.char '\n']) ∧
      indent margin rendered = join [.char '\n'] ((splitLines w).map (indentLine margin)) := by
    by_cases hlast : rendered.getLast? = some (.char '\n')
    · obtain ⟨w, rfl⟩ := List.getLast?_eq_some_iff.1 hlast
      have hlines := lines_lineFeed fun c hc => hbreaks c (List.mem_append_left _ hc)
      exact ⟨w, .inr rfl, by rw [indent, hlines]; rfl⟩
    · refine ⟨rendered, .inl rfl, ?_⟩
      by_cases hne : rendered = []
      · rw [hne]
        rfl
      · rw [indent, lines_eq_splitLines hbreaks hne hlast]
        rfl
  refine ⟨w, hw, ?_⟩
  have hreal := realigned_join hmargin (fun l hl => not_mem_of_mem_splitLines (t := w) hl) []
  have hne : (splitLines w).map (indentLine margin) ≠ [] := by
    simpa using splitLines_ne_nil w
  rwa [join_cons (splitLines_ne_nil w), join_cons hne, join_splitLines, ← hindent] at hreal

theorem isMargin_innerMargin (document : Text) (brace : Nat) :
    (innerMargin document brace).IsMargin := by
  intro c hc
  refine ⟨List.all_eq_true.1 (allBlank_innerMargin document brace) c hc, ?_⟩
  rintro rfl
  exact lineFeed_not_mem_innerMargin document brace hc

/-- In what is pushed down, a new line comes first, blanks apart, unless all of it is blank. -/
theorem exists_pushed (h : allBlank rest = false) (margin : Text) :
    ∃ b u : Text, pushed margin rest = b ++ .char '\n' :: u ∧ b.IsMargin := by
  have hnone : Text.IsMargin [] := fun c hc => by cases hc
  unfold pushed
  split
  · exact ⟨[], _, rfl, hnone⟩
  · next hline =>
    split
    · exact ⟨[], _, rfl, hnone⟩
    · have hsplit := List.takeWhile_append_dropWhile (p := (· ≠ .char '\n')) (l := rest)
      have hblank : allBlank (rest.takeWhile (· ≠ .char '\n')) = true := by simpa using hline
      cases hbelow : rest.dropWhile (· ≠ .char '\n') with
      | nil =>
        rw [hbelow, List.append_nil] at hsplit
        rw [hsplit, h] at hblank
        cases hblank
      | cons c u =>
        have hc := List.head?_dropWhile_not (p := (· ≠ .char '\n')) (l := rest)
        rw [hbelow] at hc hsplit
        obtain rfl : c = .char '\n' := by simpa using hc
        refine ⟨_, u, hsplit.symm, fun d hd => ⟨List.all_eq_true.1 hblank d hd, ?_⟩⟩
        have := List.all_eq_true.1 List.all_takeWhile d hd
        simpa using this

/-- **The braces below a header** are those of the fragment and those that were there. -/
theorem kinds_below (hends : EndsInCode rendered)
    (hbreaks : ∀ c ∈ rendered, isLineBreak c = true → c = .char '\n') (hmargin : margin.IsMargin)
    (hrest : allBlank rest = false) :
    start.kinds (.char '\n' :: (indent margin rendered ++ pushed margin rest)) [] =
      start.kinds rendered [] ++ start.kinds rest [] := by
  obtain ⟨w, hw, hreal⟩ := exists_realigned hbreaks hmargin
  obtain ⟨b, u, hpushed, hb⟩ := exists_pushed hrest margin
  have hblank : allBlank margin = true := List.all_eq_true.2 fun c hc => (hmargin c hc).1
  have hinert := inert_pushed margin rest
  -- the fragment is read as it is alone, up to its last line feed
  have hreads := hreal.reads
    ((reads_of_alone isProper_start w).blanks (u := [.char '\n']) (by decide))
  have hkinds : start.kinds w [] = start.kinds rendered [] := by
    rcases hw with rfl | rfl
    · rfl
    · exact (kinds_append_blanks isProper_start (by decide) w).symm
  have hclosing : Closing (start.after w []) := by
    rcases hw with rfl | rfl
    · exact closing_of_endsInCode hends
    · exact closing_of_endsInCode_lineFeed hends
  have hsteady := (steady_start (w ++ [])).after
  rw [← List.cons_append, kinds_append, List.append_nil, hreads.kinds _ hinert,
    hreads.after _ hinert, hkinds, ← kinds_pushed hblank rest, hpushed, hclosing.kinds hsteady hb]

/-- **The braces at the end** are those of the text and those of the fragment. -/
theorem kinds_atEnd (hblock : endMode t ≠ .blockComment) (htripled : ∀ q, endMode t ≠ .tripled q)
    (rendered : Text) :
    start.kinds (trimRight t ++ ([.char '\n', .char '\n'] ++ (rendered ++ [.char '\n']))) [] =
      start.kinds (trimRight t) [] ++ start.kinds rendered [] := by
  obtain ⟨b, hsplit, hb⟩ := exists_trimRight_append t
  have hinert : ∀ u, Inert ([.char '\n', .char '\n'] ++ u) :=
    fun u => inert_of_isBlank (by decide) _
  have hbounded := bounded_after (trimRight t)
  have hquotes := (steady_start (trimRight t ++ [])).after.quotes
  have hend : (start.after t []).mode = ((start.after (trimRight t) []).after b []).mode := by
    conv_lhs => rw [hsplit, after_append, List.append_nil,
      after_congr isProper_start (inert_of_allBlank hb) inert_nil]
  rw [endMode, hend] at hblock htripled
  have hstart : (start.after (trimRight t) []).after [.char '\n', .char '\n']
      (rendered ++ [.char '\n'] ++ []) = start := by
    generalize start.after (trimRight t) [] = s at *
    obtain ⟨mode, skip⟩ := s
    -- what is open before the blanks would be open behind them
    have hopen : ∀ hmode : mode = .blockComment ∨ ∃ q, isQuote q = true ∧ mode = .tripled q,
        (ScanState.after ⟨mode, skip⟩ b []).mode = mode := by
      intro hmode
      obtain rfl : skip = 0 := by
        rcases hmode with rfl | ⟨q, -, rfl⟩ <;> simpa [Bounded] using hbounded
      rw [after_blanks_of_mode hmode hb]
    apply after_lineFeeds_eq_start hbounded
    · rintro rfl
      exact hblock (hopen (.inl rfl))
    · rintro q rfl
      exact htripled q (hopen (.inr ⟨q, hquotes q (.inr rfl), rfl⟩))
  rw [kinds_append, List.append_nil, kinds_congr isProper_start (hinert _) inert_nil,
    after_congr isProper_start (hinert _) inert_nil, kinds_append, hstart,
    kinds_append_blanks isProper_start (by decide),
    kinds_eq_nil (t := [.char '\n', .char '\n']) (by decide) (by decide)]
  rfl

end Insertion

/-! ## Both anchors -/

theorem map_brace_braces (t : Text) : (braces t).map (·.brace) = start.kinds t [] := by
  rw [braces, bracesFrom, map_brace_scan, List.drop_zero]

theorem map_brace_shift (es : List BraceAt) (n : Nat) :
    (es.map (·.shift n)).map (·.brace) = es.map (·.brace) := by
  rw [List.map_map]
  rfl

/-- Below the header of a block, the braces of a fragment come right behind the brace. -/
theorem insertBelow_splices {brace : Nat} (hbalance : balance document = .ok ())
    (hbrace : ⟨brace, .opening⟩ ∈ braces document) (hends : EndsInCode rendered)
    (hbreaks : ∀ c ∈ rendered, isLineBreak c = true → c = .char '\n') :
    ∃ before behind inside, braces document = before ++ ⟨brace, .opening⟩ :: behind ∧
      braces (insertBelow document rendered brace) = before ++ ⟨brace, .opening⟩ :: inside ∧
      inside.map (·.brace) = (braces rendered).map (·.brace) ++ behind.map (·.brace) := by
  obtain ⟨hlt, hget⟩ := List.getElem?_eq_some_iff.1 (getElem?_of_mem_braces hbrace)
  have hsplit : document = document.take brace ++ .char '{' :: document.drop (brace + 1) := by
    rw [← show document[brace] = .char '{' from hget, ← List.drop_eq_getElem_cons hlt,
      List.take_append_drop]
  have hput : insertBelow document rendered brace = document.take brace ++ .char '{' ::
      (.char '\n' :: (indent (innerMargin document brace) rendered ++
        pushed (innerMargin document brace) (document.drop (brace + 1)))) := by
    rw [insertBelow_eq, List.take_add_one, List.getElem?_eq_getElem hlt, hget, List.append_assoc]
    rfl
  have hlength : (document.take brace).length = brace := by
    rw [List.length_take]
    omega
  have hmargin := isMargin_innerMargin document brace
  have hrest := allBlank_behind hbalance hbrace
  generalize innerMargin document brace = margin at hput hmargin
  rw [hput]
  generalize document.take brace = p at hsplit hlength
  generalize document.drop (brace + 1) = u at hsplit hrest
  subst hsplit hlength
  refine ⟨braces p, _, _, braces_brace hbrace, braces_brace hbrace, ?_⟩
  rw [map_brace_shift, map_brace_shift, map_brace_braces, map_brace_braces, map_brace_braces,
    kinds_below hends hbreaks hmargin hrest]

/-- At the end of a text, the braces of a fragment come behind those of the text. -/
theorem exists_braces_atEnd (hblock : endMode document ≠ .blockComment)
    (htripled : ∀ q, endMode document ≠ .tripled q) (rendered : Text) :
    ∃ added, braces (trimRight document ++
        (if (trimRight document).isEmpty then [] else [.char '\n', .char '\n']) ++
        rendered ++ [.char '\n']) = braces document ++ added ∧
      added.map (·.brace) = (braces rendered).map (·.brace) := by
  obtain ⟨b, hsplit, hb⟩ := exists_trimRight_append document
  have hhead : braces document = braces (trimRight document) := by
    obtain ⟨found, hfound, -⟩ := exists_braces_append (inert_of_allBlank hb) (trimRight document)
    have hkinds := kinds_append_blanks isProper_start hb (trimRight document)
    rw [← map_brace_braces, ← map_brace_braces, hfound, List.map_append,
      List.append_right_eq_self, List.map_eq_nil_iff] at hkinds
    conv_lhs => rw [hsplit, hfound, hkinds, List.append_nil]
  rw [hhead]
  by_cases hempty : trimRight document = []
  · rw [hempty, List.isEmpty_nil, if_pos rfl]
    refine ⟨braces (rendered ++ [.char '\n']), rfl, ?_⟩
    rw [map_brace_braces, map_brace_braces]
    exact kinds_append_blanks isProper_start (by decide) rendered
  · rw [if_neg (by simpa using hempty), List.append_assoc, List.append_assoc]
    have hinert : Inert ([.char '\n', .char '\n'] ++ (rendered ++ [.char '\n'])) :=
      inert_of_isBlank (by decide) _
    obtain ⟨added, hadded, -⟩ := exists_braces_append hinert (trimRight document)
    refine ⟨added, hadded, ?_⟩
    have hkinds := kinds_atEnd hblock htripled rendered
    rwa [← map_brace_braces, ← map_brace_braces, ← map_brace_braces, hadded, List.map_append,
      List.append_cancel_left_eq] at hkinds

/-- **The braces of a fragment are spliced into those of the text**, right behind the brace of its
block or at the end, and the text stays balanced. -/
theorem insert_splices (hbalance : balance document = .ok ())
    (hblock : endMode document ≠ .blockComment) (htripled : ∀ q, endMode document ≠ .tripled q)
    (hrender : f.render versions = .ok rendered) (hrendered : balance rendered = .ok ())
    (hends : EndsInCode rendered) (hbreaks : ∀ c ∈ rendered, isLineBreak c = true → c = .char '\n')
    (habsent : document.contains f.marker = false)
    (hinsert : insert document f versions = .ok document') :
    balance document' = .ok () ∧
    (f.anchor.isBlock = true → ∃ brace before behind inside,
      blockBrace? document (f.anchor.block.getD []) = some brace ∧
      braces document = before ++ ⟨brace, .opening⟩ :: behind ∧
      braces document' = before ++ ⟨brace, .opening⟩ :: inside ∧
      inside.map (·.brace) = (braces rendered).map (·.brace) ++ behind.map (·.brace)) ∧
    (f.anchor.isBlock = false → ∃ added, braces document' = braces document ++ added ∧
      added.map (·.brace) = (braces rendered).map (·.brace)) := by
  have hdocument := balance_eq_ok_iff.1 hbalance
  rw [balance_eq_ok_iff, ← map_brace_braces] at hrendered ⊢
  rw [← map_brace_braces] at hdocument
  rw [insert, habsent, if_neg (by simp)] at hinsert
  cases hanchor : f.anchor.isBlock with
  | true =>
    rw [hanchor, if_pos rfl, insertInside] at hinsert
    cases hbrace : blockBrace? document (f.anchor.block.getD []) with
    | none =>
      rw [hbrace] at hinsert
      cases hinsert
    | some brace =>
      rw [hbrace, hrender] at hinsert
      obtain rfl := Except.ok.inj hinsert
      obtain ⟨before, behind, inside, hbefore, hafter, hkinds⟩ :=
        insertBelow_splices hbalance (mem_braces_of_blockBrace? hbrace) hends hbreaks
      refine ⟨?_, fun _ => ⟨brace, before, behind, inside, rfl, hbefore, hafter, hkinds⟩,
        fun hend => by cases hend⟩
      rw [hbefore, List.map_append, List.map_cons, List.append_cons] at hdocument
      rw [hafter, List.map_append, List.map_cons, hkinds, List.append_cons]
      rw [level_skip hrendered]
      exact hdocument
  | false =>
    rw [hanchor, if_neg (by simp), insertAtEnd, hrender] at hinsert
    obtain rfl := Except.ok.inj hinsert
    obtain ⟨added, hadded, hkinds⟩ := exists_braces_atEnd hblock htripled rendered
    refine ⟨?_, fun hinside => (by cases hinside), fun _ => ⟨added, hadded, hkinds⟩⟩
    rw [show braces _ = _ from hadded, List.map_append, hkinds,
      ← List.append_nil ((braces rendered).map _)]
    rw [← List.append_nil ((braces document).map _)] at hdocument
    rw [level_skip hrendered]
    exact hdocument

/-! ### Braces that do not count -/

/-- A fragment whose last line ends in a comment. -/
def commentedFragment : Fragment where
  marker := "// m".toText
  template := "foo \x7b\n    bar '\x7d'\n\x7d // \x7b".toText
  anchor := .inBlock "a".toText
  block := some "foo".toText

/-- A block with its content on the line of its header, and a comment behind it. -/
def flushCommentText : Text :=
  "a \x7b b \x7b \x7d \x7d // \x7d\n".toText

/-- The comment at the end of the fragment does not swallow what is pushed down. -/
theorem insert_splices_comment :
    balance flushCommentText = .ok () ∧ endMode flushCommentText ≠ .blockComment ∧
      (∀ q, endMode flushCommentText ≠ .tripled q) ∧
    ∃ rendered document', commentedFragment.render ⟨[], []⟩ = .ok rendered ∧
      balance rendered = .ok () ∧ EndsInCode rendered ∧
      (∀ c ∈ rendered, isLineBreak c = true → c = .char '\n') ∧
      flushCommentText.contains commentedFragment.marker = false ∧
      insert flushCommentText commentedFragment ⟨[], []⟩ = .ok document' ∧
      balance document' = .ok () := by
  have hbalance : balance flushCommentText = .ok () := by
    unfold flushCommentText
    repeat rw [String.toText_ofList]
    exact eq_ok_of_toOption (by decide)
  have hend : endMode flushCommentText = .code := by
    unfold flushCommentText
    repeat rw [String.toText_ofList]
    decide
  have hblock : endMode flushCommentText ≠ .blockComment := by
    rw [hend]
    simp
  have htripled : ∀ q, endMode flushCommentText ≠ .tripled q := by
    rw [hend]
    simp
  have hrender : commentedFragment.render ⟨[], []⟩ =
      .ok "// m\nfoo \x7b\n    bar '\x7d'\n\x7d // \x7b".toText := by
    unfold commentedFragment
    repeat rw [String.toText_ofList]
    exact eq_ok_of_toOption (by decide)
  have hrendered : balance "// m\nfoo \x7b\n    bar '\x7d'\n\x7d // \x7b".toText = .ok () := by
    repeat rw [String.toText_ofList]
    exact eq_ok_of_toOption (by decide)
  have hends : EndsInCode "// m\nfoo \x7b\n    bar '\x7d'\n\x7d // \x7b".toText := by
    repeat rw [String.toText_ofList]
    decide
  have hbreaks : ∀ c ∈ "// m\nfoo \x7b\n    bar '\x7d'\n\x7d // \x7b".toText,
      isLineBreak c = true → c = .char '\n' := by
    repeat rw [String.toText_ofList]
    decide
  have habsent : flushCommentText.contains commentedFragment.marker = false := by
    unfold flushCommentText commentedFragment
    repeat rw [String.toText_ofList]
    decide
  have hinsert : insert flushCommentText commentedFragment ⟨[], []⟩ =
      .ok ("a \x7b\n    // m\n    foo \x7b\n        bar '\x7d'\n    \x7d // \x7b\n\n" ++
        "    b \x7b \x7d \x7d // \x7d\n").toText := by
    rw [String.toText_append]
    unfold flushCommentText commentedFragment
    repeat rw [String.toText_ofList]
    exact eq_ok_of_toOption (by decide)
  exact ⟨hbalance, hblock, htripled, _, _, hrender, hrendered, hends, hbreaks, habsent, hinsert,
    (insert_splices hbalance hblock htripled hrender hrendered hends hbreaks habsent hinsert).1⟩

end Graft
